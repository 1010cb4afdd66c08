import LearnDiary.Crypt.Md5

/-!
# MD5 of a message in pieces (comm/md5.c)

`MD5_init`, any number of `MD5_process`, `MD5_finish`.  `Holds c m`: the context `c` has taken in the
message `m`, its whole blocks in the chaining value, the rest in `data`, its length in bits in `Nl`
and `Nh`.

* `holds_process`  one piece, of any length an `unsigned int` can have;
* `holds_finish`   the digest of what the context holds;
* `finish_processAll`  every way of cutting a message gives the digest of the message.
-/

namespace Md5
open Digest Absorb

def md5Init : Md5T :=
  { A := 0x67452301, B := 0xefcdab89, C := 0x98badcfe, D := 0x10325476, Nl := 0, Nh := 0,
    data := List.replicate 64 0, num := 0 }

/-- `MD5_process` from `n = len / MD5_CBLOCK` on -/
def processBlocks (c : Md5T) (data_ : Bytes) (len : Nat) : Option Md5T :=
  let n := len / 64
  (if 0 < n then md5BlockDataOrder c data_ n else some c).bind fun c =>
    let data_ := data_.drop (n * 64)
    let len := len - n * 64
    if len ≠ 0 then
      (RawBuffer.load data_ 0 len).bind fun d =>
        (RawBuffer.memcpyTo c.data 0 d).map fun p => { c with data := p, num := len }
    else some c

def Md5T.count (c : Md5T) (len : UInt32) : Md5T :=
  let l := c.Nl + len <<< 3
  { c with Nl := l, Nh := (if l < c.Nl then c.Nh + 1 else c.Nh) + len >>> 29 }

def md5Process (c : Md5T) (data_ : Bytes) (len : UInt32) : Option Md5T :=
  if len = 0 then some c
  else
    let c := c.count len
    let n := c.num
    let len := len.toNat
    if n ≠ 0 then
      if 64 ≤ len ∨ 64 ≤ len + n then
        (RawBuffer.load data_ 0 (64 - n)).bind fun d =>
          (RawBuffer.memcpyTo c.data n d).bind fun p =>
            (md5BlockDataOrder { c with data := p } p 1).bind fun c =>
              (RawBuffer.memset c.data 0 64).bind fun p =>
                processBlocks { c with data := p, num := 0 } (data_.drop (64 - n)) (len - (64 - n))
      else
        (RawBuffer.load data_ 0 len).bind fun d =>
          (RawBuffer.memcpyTo c.data n d).map fun p => { c with data := p, num := n + len }
    else processBlocks c data_ len

/-- `HASH_MAKE_STRING` -/
def Md5T.digest (c : Md5T) : Bytes := bytes32 c.A ++ bytes32 c.B ++ bytes32 c.C ++ bytes32 c.D

/-- `MD5_finish` from the last block on, with `n` bytes of it there -/
def finishBlock (c : Md5T) (n : Nat) : Option (Md5T × Bytes) :=
  (RawBuffer.memset c.data n (56 - n)).bind fun p =>
    (RawBuffer.memcpyTo p 56 (bytes32 c.Nl)).bind fun p =>
      (RawBuffer.memcpyTo p 60 (bytes32 c.Nh)).bind fun p =>
        (md5BlockDataOrder { c with data := p } p 1).bind fun c =>
          (RawBuffer.memset c.data 0 64).map fun p =>
            let c := { c with data := p, num := 0 }
            (c, c.digest)

/-- the context afterwards and what is written to `md` -/
def md5Finish (c : Md5T) : Option (Md5T × Bytes) :=
  (RawBuffer.memcpyTo c.data c.num [0x80]).bind fun p =>
    let n := c.num + 1
    if 56 < n then
      (RawBuffer.memset p n (64 - n)).bind fun p =>
        (md5BlockDataOrder { c with data := p } p 1).bind fun c => finishBlock c 0
    else finishBlock { c with data := p } n

def md5Buffer (buffer : Bytes) (buf_len : UInt32) : Option Bytes :=
  (md5Process md5Init buffer buf_len).bind fun c => (md5Finish c).map Prod.snd

/-- one `MD5_process` after the other, each with a pointer and a length -/
def processAll (c : Md5T) : List (Bytes × UInt32) → Option Md5T
  | [] => some c
  | (data_, len) :: calls => (md5Process c data_ len).bind fun c => processAll c calls

def passed (calls : List (Bytes × UInt32)) : Bytes := calls.flatMap fun x => x.1.take x.2.toNat

/-! ## memory -/

/-- the 64 bytes `p` begin with `x` -/
structure Filled (p x : Bytes) : Prop where
  size : p.length = 64
  start : p.take x.length = x

theorem Filled.nil {p : Bytes} (h : p.length = 64) : Filled p [] := ⟨h, rfl⟩

theorem Filled.whole {p x : Bytes} (h : Filled p x) (hx : x.length = 64) : p = x := by
  have hs := h.start
  rwa [hx, List.take_of_length_le h.size.le] at hs

theorem take_overwrite (l : Bytes) {pos : Nat} (d : Bytes) (h : pos ≤ l.length) :
    (AutoBuffer.overwrite l pos d).take (pos + d.length) = l.take pos ++ d := by
  have hl : (l.take pos ++ d).length = pos + d.length := by
    rw [List.length_append, List.length_take_of_le h]
  rw [AutoBuffer.overwrite, ← hl, List.take_left]

theorem Filled.append {p x : Bytes} (h : Filled p x) (d : Bytes) (hd : x.length + d.length ≤ 64) :
    ∃ q, RawBuffer.memcpyTo p x.length d = some q ∧ Filled q (x ++ d) := by
  have hle : x.length + d.length ≤ p.length := h.size ▸ hd
  refine ⟨_, RawBuffer.memcpyTo_of_le hle, ?_, ?_⟩
  · rw [AutoBuffer.length_overwrite _ _ _ hle, h.size]
  · rw [List.length_append, take_overwrite _ _ (by omega), h.start]

theorem Filled.zeros {p x : Bytes} (h : Filled p x) (n : Nat) (hn : x.length + n ≤ 64) :
    ∃ q, RawBuffer.memset p x.length n = some q ∧ Filled q (x ++ List.replicate n 0) :=
  h.append _ (by rw [List.length_replicate]; exact hn)

/-- the context has the chaining value `s`, and `r` waits in `data` -/
structure Taken (c : Md5T) (s : Chain) (r : Bytes) : Prop where
  chain : c.chain = s
  num : c.num = r.length
  waits : Filled c.data r

/-- the block in `data` is full: it goes into the chaining value -/
theorem full_block (c : Md5T) {p : Bytes} (hp : p.length = 64) :
    md5BlockDataOrder { c with data := p } p 1 =
      some ({ c with data := p }.withChain (compress c.chain p)) := by
  have h1 : blocks 64 compress 1 c.chain p = compress c.chain p := by
    rw [blocks, blocks, List.take_of_length_le hp.le]
  have hc : { c with data := p }.chain = c.chain := rfl
  rw [md5BlockDataOrder_eq _ p 1 (by omega), hc, h1]

theorem memset_all {p : Bytes} (h : p.length = 64) :
    ∃ q, RawBuffer.memset p 0 64 = some q ∧ q.length = 64 := by
  obtain ⟨q, hq, hf⟩ := (Filled.nil h).zeros 64 (Nat.le_refl _)
  exact ⟨q, hq, hf.size⟩

/-! ## a piece -/

theorem Taken.count {c : Md5T} {s : Chain} {r : Bytes} (h : Taken c s r) (len : UInt32) :
    Taken (c.count len) s r := ⟨h.chain, h.num, h.waits⟩

theorem absorb_take (s : Chain) (data_ : Bytes) {len : Nat} (hl : len ≤ data_.length) :
    blocks 64 compress (len / 64) s data_ = absorb 64 compress s (data_.take len) := by
  have ht := List.length_take_of_le hl
  have hb : len / 64 * 64 ≤ (data_.take len).length := by
    rw [ht]
    exact Nat.div_mul_le_self _ _
  have h := blocks_append 64 compress (len / 64) s (data_.take len) (data_.drop len) hb
  rw [List.take_append_drop] at h
  rw [h, absorb, ht]

theorem rest_take (data_ : Bytes) {len : Nat} (hl : len ≤ data_.length) :
    rest 64 (data_.take len) = (data_.drop (len / 64 * 64)).take (len - len / 64 * 64) := by
  rw [rest, List.length_take_of_le hl, List.drop_take]

theorem processBlocks_eq {c : Md5T} {s : Chain} (h : Taken c s []) (data_ : Bytes) {len : Nat}
    (hl : len ≤ data_.length) :
    ∃ c', processBlocks c data_ len = some c' ∧
      Taken c' (absorb 64 compress s (data_.take len)) (rest 64 (data_.take len)) ∧
      c'.Nl = c.Nl ∧ c'.Nh = c.Nh := by
  have hn : len / 64 * 64 ≤ len := Nat.div_mul_le_self _ _
  have hr := rest_take data_ hl
  have hrl : (rest 64 (data_.take len)).length = len - len / 64 * 64 := by
    rw [hr, List.length_take, List.length_drop]
    omega
  have hc : (if 0 < len / 64 then md5BlockDataOrder c data_ (len / 64) else some c) =
      some (c.withChain (absorb 64 compress s (data_.take len))) := by
    rw [← absorb_take s data_ hl, ← h.chain, ← md5BlockDataOrder_eq c data_ _ (by omega)]
    split
    · rfl
    · have h0 : len / 64 = 0 := by omega
      rw [h0, md5BlockDataOrder]
  have ht : Taken (c.withChain (absorb 64 compress s (data_.take len)))
      (absorb 64 compress s (data_.take len)) [] := ⟨rfl, h.num, h.waits⟩
  rw [processBlocks, hc, Option.bind_some]
  by_cases h0 : len - len / 64 * 64 = 0
  · rw [if_neg (not_not.mpr h0)]
    have hnil : rest 64 (data_.take len) = [] := List.eq_nil_of_length_eq_zero (hrl.trans h0)
    rw [hnil]
    exact ⟨_, rfl, ht, rfl, rfl⟩
  · have hld : 0 + (len - len / 64 * 64) ≤ (data_.drop (len / 64 * 64)).length := by
      rw [List.length_drop]
      omega
    obtain ⟨p, hp, hf⟩ := h.waits.append (rest 64 (data_.take len)) (by
      rw [List.length_nil, length_rest]
      omega)
    rw [if_pos h0, RawBuffer.load_of_le hld, Option.bind_some, List.drop_zero, ← hr]
    refine ⟨_, congrArg (Option.map _) hp, ⟨rfl, hrl.symm, hf⟩, rfl, rfl⟩

theorem count_zero (c : Md5T) : c.count 0 = c := by
  have hz : (0 : UInt32) <<< 3 = 0 := rfl
  have hs : (0 : UInt32) >>> 29 = 0 := rfl
  have hl : ¬ c.Nl < c.Nl := UInt32.lt_irrefl _
  rw [Md5T.count, hz, hs, UInt32.add_zero, if_neg hl, UInt32.add_zero]

theorem process_eq {c : Md5T} {s : Chain} {r : Bytes} (h : Taken c s r) (hr : r.length < 64)
    (data_ : Bytes) {len : UInt32} (hl : len.toNat ≤ data_.length) :
    ∃ c', md5Process c data_ len = some c' ∧
      Taken c' (absorb 64 compress s (r ++ data_.take len.toNat))
        (rest 64 (r ++ data_.take len.toNat)) ∧
      c'.Nl = (c.count len).Nl ∧ c'.Nh = (c.count len).Nh := by
  have htl := List.length_take_of_le hl
  by_cases h0 : len = 0
  · rw [md5Process, if_pos h0, h0, count_zero]
    have ht : data_.take (0 : UInt32).toNat = [] := List.take_zero
    rw [ht, List.append_nil, absorb_of_lt 64 compress hr, rest_of_lt 64 hr]
    exact ⟨c, rfl, h, rfl, rfl⟩
  have hc := h.count len
  have hcn : (c.count len).num = r.length := hc.num
  rw [md5Process, if_neg h0]
  dsimp only
  by_cases hn0 : (c.count len).num = 0
  · have hnil : r = [] := List.eq_nil_of_length_eq_zero (hcn.symm.trans hn0)
    subst hnil
    rw [if_neg (not_not.mpr hn0), List.nil_append]
    exact processBlocks_eq hc data_ hl
  rw [if_pos hn0]
  by_cases hfull : 64 ≤ len.toNat ∨ 64 ≤ len.toNat + (c.count len).num
  · -- the first bytes of the piece fill the block
    have h64 : 64 - r.length ≤ len.toNat := by omega
    have hdl : (data_.take (64 - r.length)).length = 64 - r.length :=
      List.length_take_of_le (by omega)
    obtain ⟨p, hp, hf⟩ := hc.waits.append (data_.take (64 - r.length)) (by omega)
    have hpr : p = r ++ data_.take (64 - r.length) := hf.whole (by
      rw [List.length_append]
      omega)
    have hsplit : r ++ data_.take len.toNat =
        p ++ (data_.drop (64 - r.length)).take (len.toNat - (64 - r.length)) := by
      rw [hpr, List.append_assoc, ← List.take_add, Nat.add_sub_cancel' h64]
    obtain ⟨q, hq, hql⟩ := memset_all hf.size
    rw [← hcn] at hp
    rw [if_pos hfull, RawBuffer.load_of_le (by omega), Option.bind_some, List.drop_zero, hp,
      Option.bind_some, full_block _ hf.size, Option.bind_some, hc.chain]
    dsimp only [Md5T.withChain]
    rw [hq, Option.bind_some, hcn, hsplit, absorb_block 64 compress (by decide) hf.size,
      rest_block 64 (by decide) hf.size]
    refine processBlocks_eq ⟨rfl, rfl, Filled.nil hql⟩ _ ?_
    rw [List.length_drop]
    omega
  · obtain ⟨p, hp, hf⟩ := hc.waits.append (data_.take len.toNat) (by omega)
    have hlt : (r ++ data_.take len.toNat).length < 64 := by
      rw [List.length_append]
      omega
    rw [← hcn] at hp
    rw [if_neg hfull, RawBuffer.load_of_le (by omega), Option.bind_some, List.drop_zero, hp,
      absorb_of_lt 64 compress hlt, rest_of_lt 64 hlt]
    refine ⟨_, rfl, ⟨hc.chain, ?_, hf⟩, rfl, rfl⟩
    rw [List.length_append, htl, hcn]

/-! ## the digest -/

/-- `MD5_finish` behind `r`, with the length words of the context -/
def tail (c : Md5T) (r : Bytes) : Bytes :=
  0x80 :: (List.replicate ((119 - r.length) % 64) 0 ++ (bytes32 c.Nl ++ bytes32 c.Nh))

theorem length_bytes32 (w : UInt32) : (bytes32 w).length = 4 := rfl

theorem digest_eq (c : Md5T) (s : Chain) (p : Bytes) (n : Nat) :
    { c.withChain s with data := p, num := n }.digest = s.bytes := rfl

/-- `x`, zeros, the length -/
def lastBlock (x : Bytes) (Nl Nh : UInt32) : Bytes :=
  x ++ (List.replicate (56 - x.length) 0 ++ (bytes32 Nl ++ bytes32 Nh))

theorem length_lastBlock {x : Bytes} (hx : x.length ≤ 56) (Nl Nh : UInt32) :
    (lastBlock x Nl Nh).length = 64 := by
  rw [lastBlock, List.length_append, List.length_append, List.length_replicate, List.length_append,
    length_bytes32, length_bytes32]
  omega

theorem finishBlock_eq {c : Md5T} {s : Chain} (hs : c.chain = s) {x : Bytes}
    (hf : Filled c.data x) {n : Nat} (hn : x.length = n) (hx : n ≤ 56) :
    ∃ c', finishBlock c n = some (c', (compress s (lastBlock x c.Nl c.Nh)).bytes) := by
  subst hs hn
  obtain ⟨p, hp, hfp⟩ := hf.zeros (56 - x.length) (by omega)
  have h56 : (x ++ List.replicate (56 - x.length) (0 : UInt8)).length = 56 := by
    rw [List.length_append, List.length_replicate]
    omega
  obtain ⟨q, hq, hfq⟩ := hfp.append (bytes32 c.Nl) (by rw [h56, length_bytes32]; decide)
  have h60 : (x ++ List.replicate (56 - x.length) 0 ++ bytes32 c.Nl).length = 60 := by
    rw [List.length_append, h56, length_bytes32]
  obtain ⟨u, hu, hfu⟩ := hfq.append (bytes32 c.Nh) (by rw [h60, length_bytes32])
  have hw : u = lastBlock x c.Nl c.Nh := by
    rw [hfu.whole (by rw [List.length_append, h60, length_bytes32]), List.append_assoc,
      List.append_assoc, lastBlock]
  obtain ⟨z, hz, -⟩ := memset_all hfu.size
  rw [h56] at hq
  rw [h60] at hu
  refine ⟨{ c.withChain (compress c.chain u) with data := z, num := 0 }, ?_⟩
  rw [finishBlock, hp, Option.bind_some, hq, Option.bind_some, hu, Option.bind_some,
    full_block c hfu.size, Option.bind_some, ← hw, ← digest_eq c (compress c.chain u) z 0]
  exact congrArg (Option.map _) hz

theorem finishBlock_zero (c : Md5T) (t : Chain) {q : Bytes} (hq : q.length = 64) :
    ∃ c', finishBlock ({ c with data := q }.withChain t) 0 =
      some (c', (compress t (lastBlock [] c.Nl c.Nh)).bytes) := by
  obtain ⟨c', hc'⟩ := finishBlock_eq (chain_withChain { c with data := q } t) (Filled.nil hq) rfl
    (by decide)
  exact ⟨c', hc'⟩

theorem finish_eq {c : Md5T} {s : Chain} {r : Bytes} (h : Taken c s r) (hr : r.length < 64) :
    ∃ c', md5Finish c = some (c', (absorb 64 compress s (r ++ tail c r)).bytes) := by
  have hn := h.num
  obtain ⟨p, hp, hf⟩ := h.waits.append [0x80] hr
  have hl1 : (r ++ [0x80] : Bytes).length = c.num + 1 := by
    rw [List.length_append, hn]
    rfl
  rw [← hn] at hp
  rw [md5Finish, hp, Option.bind_some, ← h.chain]
  by_cases h56 : 56 < c.num + 1
  · -- no room for the length: zeros to the end of the block, and one more
    obtain ⟨q, hq, hfq⟩ := hf.zeros (64 - (c.num + 1)) (by omega)
    have hw : q = r ++ [0x80] ++ List.replicate (64 - (c.num + 1)) 0 := hfq.whole (by
      rw [List.length_append, hl1, List.length_replicate]
      omega)
    have hk : (119 - r.length) % 64 = 64 - (c.num + 1) + 56 := by omega
    have hsplit : r ++ tail c r = q ++ (lastBlock [] c.Nl c.Nh ++ []) := by
      rw [hw, tail, hk, List.replicate_add, lastBlock]
      simp only [List.append_assoc, List.cons_append, List.nil_append, List.append_nil,
        List.length_nil, Nat.sub_zero]
    obtain ⟨c', hc'⟩ := finishBlock_zero c (compress c.chain q) hfq.size
    refine ⟨c', ?_⟩
    rw [hl1] at hq
    rw [if_pos h56, hq, Option.bind_some, full_block c hfq.size, Option.bind_some, hsplit,
      absorb_block 64 compress (by decide) hfq.size,
      absorb_block 64 compress (by decide) (length_lastBlock (by decide) _ _),
      absorb_of_lt 64 compress (by decide)]
    exact hc'
  · have hk : (119 - r.length) % 64 = 56 - (r ++ [0x80] : Bytes).length := by omega
    have hsplit : r ++ tail c r = lastBlock (r ++ [0x80]) c.Nl c.Nh ++ [] := by
      rw [tail, hk, lastBlock]
      simp only [List.append_assoc, List.cons_append, List.nil_append, List.append_nil]
    have hc : { c with data := p }.chain = c.chain := rfl
    obtain ⟨c', hc'⟩ := finishBlock_eq hc hf hl1 (by omega)
    refine ⟨c', ?_⟩
    rw [if_neg h56, hsplit,
      absorb_block 64 compress (by decide) (length_lastBlock (by omega) _ _),
      absorb_of_lt 64 compress (by decide)]
    exact hc'

/-! ## the length -/

theorem byte_eq {w : UInt32} {n : Nat} (h : w.toNat = n % 2 ^ 32) (k : UInt32) (hk : k.toNat ≤ 24) :
    (w >>> k).toUInt8 = (n / 2 ^ k.toNat).toUInt8 := by
  have e : 2 ^ 32 = 2 ^ k.toNat * 2 ^ (32 - k.toNat) := by
    rw [← Nat.pow_add]
    congr 1
    omega
  have h8 : 2 ^ 8 ∣ 2 ^ (32 - k.toNat) := Nat.pow_dvd_pow 2 (by omega)
  have hk' : k.toNat % 32 = k.toNat := Nat.mod_eq_of_lt (by omega)
  apply UInt8.toNat.inj
  rw [UInt32.toNat_toUInt8, UInt32.toNat_shiftRight, hk', Nat.shiftRight_eq_div_pow, h, e,
    Nat.mod_mul_right_div_self, Nat.mod_mod_of_dvd _ h8, Nat.toUInt8_eq, UInt8.toNat_ofNat']

theorem bytes32_eq {w : UInt32} {n : Nat} (h : w.toNat = n % 2 ^ 32) :
    bytes32 w = [n.toUInt8, (n / 2 ^ 8).toUInt8, (n / 2 ^ 16).toUInt8, (n / 2 ^ 24).toUInt8] := by
  have h0 := byte_eq h 0 (by decide)
  rw [UInt32.shiftRight_zero] at h0
  rw [bytes32, h0, byte_eq h 8 (by decide), byte_eq h 16 (by decide), byte_eq h 24 (by decide)]
  rw [UInt32.toNat_zero, Nat.pow_zero, Nat.div_one]
  rfl

theorem bytes64_eq {Nl Nh : UInt32} {n : Nat} (h : Nh.toNat * 2 ^ 32 + Nl.toNat = n % 2 ^ 64) :
    bytes32 Nl ++ bytes32 Nh = bytes64 n := by
  have hlt := Nl.toNat_lt
  have hl : Nl.toNat = n % 2 ^ 32 := by omega
  have hh : Nh.toNat = n / 2 ^ 32 % 2 ^ 32 := by omega
  have h0 : bytes64 n = (n / 2 ^ 0).toUInt8 :: (n / 2 ^ 8).toUInt8 :: (n / 2 ^ 16).toUInt8 ::
      (n / 2 ^ 24).toUInt8 :: [(n / 2 ^ 32).toUInt8, (n / 2 ^ 40).toUInt8, (n / 2 ^ 48).toUInt8,
        (n / 2 ^ 56).toUInt8] := rfl
  rw [bytes32_eq hl, bytes32_eq hh, h0, Nat.pow_zero, Nat.div_one, Nat.div_div_eq_div_mul,
    Nat.div_div_eq_div_mul, Nat.div_div_eq_div_mul]
  rfl

/-- the number of bits, in two words -/
def Md5T.bits (c : Md5T) : Nat := c.Nh.toNat * 2 ^ 32 + c.Nl.toNat

theorem bits_count (c : Md5T) (len : UInt32) :
    (c.count len).bits = (c.bits + 8 * len.toNat) % 2 ^ 64 := by
  have hl := c.Nl.toNat_lt
  have hh := c.Nh.toNat_lt
  have hshl : (len <<< 3).toNat = len.toNat * 8 % 2 ^ 32 := by
    rw [UInt32.toNat_shiftLeft, Nat.shiftLeft_eq]
    rfl
  have hshr : (len >>> 29).toNat = len.toNat / 2 ^ 29 := by
    rw [UInt32.toNat_shiftRight, Nat.shiftRight_eq_div_pow]
    rfl
  have hlow := UInt32.toNat_add c.Nl (len <<< 3)
  unfold Md5T.count Md5T.bits
  dsimp only
  -- the low word wraps around exactly when it becomes smaller
  split
  · rename_i hc
    have hc' := UInt32.lt_iff_toNat_lt.mp hc
    rw [UInt32.toNat_add, UInt32.toNat_add, UInt32.toNat_one, hshr]
    omega
  · rename_i hc
    have hc' := mt UInt32.lt_iff_toNat_lt.mpr hc
    rw [UInt32.toNat_add, hshr]
    omega

/-- the context has taken in `m` -/
structure Holds (c : Md5T) (m : Bytes) : Prop where
  taken : Taken c (absorb 64 compress initial m) (rest 64 m)
  bits : c.bits = 8 * m.length % 2 ^ 64

theorem holds_init : Holds md5Init [] := ⟨⟨rfl, rfl, Filled.nil rfl⟩, rfl⟩

theorem holds_process {c : Md5T} {m : Bytes} (h : Holds c m) (data_ : Bytes) {len : UInt32}
    (hl : len.toNat ≤ data_.length) :
    ∃ c', md5Process c data_ len = some c' ∧ Holds c' (m ++ data_.take len.toNat) := by
  have hr : (rest 64 m).length < 64 := by
    rw [length_rest]
    exact Nat.mod_lt _ (by decide)
  obtain ⟨c', hc', ht, hNl, hNh⟩ := process_eq h.taken hr data_ hl
  refine ⟨c', hc', ?_, ?_⟩
  · rw [absorb_append 64 compress (by decide), rest_append 64 (by decide)]
    exact ht
  · have hb : c'.bits = (c.count len).bits := by
      rw [Md5T.bits, Md5T.bits, hNl, hNh]
    rw [hb, bits_count, h.bits, List.length_append, List.length_take_of_le hl]
    omega

theorem holds_processAll {c : Md5T} {m : Bytes} (h : Holds c m) (calls : List (Bytes × UInt32))
    (hl : ∀ x ∈ calls, x.2.toNat ≤ x.1.length) :
    ∃ c', processAll c calls = some c' ∧ Holds c' (m ++ passed calls) := by
  induction calls generalizing c m with
  | nil => exact ⟨c, rfl, by rwa [passed, List.flatMap_nil, List.append_nil]⟩
  | cons x calls ih =>
    obtain ⟨c1, h1, hh1⟩ := holds_process h x.1 (hl x List.mem_cons_self)
    obtain ⟨c2, h2, hh2⟩ := ih hh1 (fun y hy => hl y (List.mem_cons_of_mem _ hy))
    refine ⟨c2, ?_, ?_⟩
    · rw [processAll, h1, Option.bind_some, h2]
    · rw [passed, List.flatMap_cons, ← List.append_assoc]
      exact hh2

theorem holds_finish {c : Md5T} {m : Bytes} (h : Holds c m) :
    ∃ c', md5Finish c = some (c', md5 m) := by
  have hr : (rest 64 m).length < 64 := by
    rw [length_rest]
    exact Nat.mod_lt _ (by decide)
  obtain ⟨c', hc'⟩ := finish_eq h.taken hr
  have ht : tail c (rest 64 m) = padding m.length := by
    rw [tail, length_rest, bytes64_eq h.bits, padding]
  refine ⟨c', ?_⟩
  rw [hc', ht, ← absorb_append 64 compress (by decide), md5]

/-- **the digest does not depend on how the message is cut**: it is MD5 of the bytes passed, and no
call leaves its buffer -/
theorem finish_processAll (calls : List (Bytes × UInt32))
    (hl : ∀ x ∈ calls, x.2.toNat ≤ x.1.length) :
    ∃ c c', processAll md5Init calls = some c ∧ md5Finish c = some (c', md5 (passed calls)) := by
  obtain ⟨c, hc, hh⟩ := holds_processAll holds_init calls hl
  obtain ⟨c', hc'⟩ := holds_finish hh
  exact ⟨c, c', hc, hc'⟩

/-- two pieces of "abc" -/
theorem finish_processAll_abc :
    ∃ c c', processAll md5Init [([97, 98], 1), ([98, 99], 2)] = some c ∧
      md5Finish c = some (c', md5 [97, 98, 99]) :=
  finish_processAll [([97, 98], 1), ([98, 99], 2)] (by decide)

theorem md5Buffer_eq (buffer : Bytes) {buf_len : UInt32} (hl : buf_len.toNat ≤ buffer.length) :
    md5Buffer buffer buf_len = some (md5 (buffer.take buf_len.toNat)) := by
  obtain ⟨c, hc, hh⟩ := holds_process holds_init buffer hl
  obtain ⟨c', hc'⟩ := holds_finish hh
  rw [md5Buffer, hc, Option.bind_some, hc']
  rfl

end Md5
