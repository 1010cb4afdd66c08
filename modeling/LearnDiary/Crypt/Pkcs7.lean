import LearnDiary.Base.Bytes

/-!
# PKCS#7 padding (comm/crypt/pkcs7_padding.c)

`_data` is the block a pointer points at, `none` for a null pointer; lengths are `unsigned int`.  A
result `none` is an access outside the block.

* `checkTail_eq`        the loop of `pkcs7_depadding` compares the last bytes with the last one;
* `pkcs7Depadding_iff`  a positive result is the length in front of such a tail;
* `depadding_padding`   de-padding accepts exactly what padding writes, and gives it back;
* `depadding_iff`       without a block size it accepts 0 as a padding of no bytes.
-/

namespace Pkcs7

def pkcs7PaddingPlusLen (_datalen : Nat) (_blocksize : UInt8) : UInt8 :=
  if ¬ (0 < _blocksize.toNat ∧ 0 < _datalen) then 0
  else (_blocksize.toNat - _datalen % _blocksize.toNat).toUInt8

/-- `memset(data + off, c, n)` -/
def memset (data : Bytes) (off : Nat) (c : UInt8) (n : Nat) : Option Bytes :=
  if off + n ≤ data.length then
    some (data.take off ++ List.replicate n c ++ data.drop (off + n))
  else none

def pkcs7Padding (_data : Option Bytes) (_datalen : Nat) (_blocksize : UInt8) :
    Option (Option Bytes × Nat) :=
  match _data with
  | none => some (none, 0)
  | some data =>
    let plus_len := pkcs7PaddingPlusLen _datalen _blocksize
    if plus_len = 0 then some (some data, 0)
    else (memset data _datalen plus_len plus_len.toNat).map fun data' =>
      (some data', (_datalen + plus_len.toNat) % 2 ^ 32)

/-- `for (; offset < plus_len; ++offset) if (plus_len != data[len - 1 - offset]) return 0;` with `k`
iterations to go -/
def checkTail (data : Bytes) (len : Nat) (plus_len : UInt8) : Nat → Nat → Option Bool
  | 0, _ => some true
  | k + 1, offset =>
    (data[len - 1 - offset]?).bind fun c =>
      if plus_len ≠ c then some false else checkTail data len plus_len k (offset + 1)

def pkcs7Depadding (_data : Option Bytes) (_datapaddinglen : Nat) : Option Nat :=
  match _data with
  | none => some 0
  | some data =>
    if ¬ 0 < _datapaddinglen then some 0
    else
      (data[_datapaddinglen - 1]?).bind fun plus_len =>
        if _datapaddinglen < plus_len.toNat then some 0
        else
          (checkTail data _datapaddinglen plus_len plus_len.toNat 0).map fun same =>
            if same then _datapaddinglen - plus_len.toNat else 0

def pkcs7DepaddingBlocksize (_data : Option Bytes) (_datapaddinglen : Nat) (_blocksize : UInt8) :
    Option Nat :=
  (pkcs7Depadding _data _datapaddinglen).bind fun data_depadding_len =>
    if data_depadding_len = 0 then some 0
    else
      let verify_plus_len := pkcs7PaddingPlusLen data_depadding_len _blocksize
      if verify_plus_len = 0 then some 0
      else
        (_data.bind (·[_datapaddinglen - 1]?)).map fun plus_len =>
          if plus_len = 0 then 0
          else if verify_plus_len ≠ plus_len then 0
          else data_depadding_len

/-- `pkcs7_padding` makes the bytes `buf` of their first `m`, in every block with room for them -/
def IsPadding (buf : Bytes) (m : Nat) (_blocksize : UInt8) : Prop :=
  m ≤ buf.length ∧
  ∀ room : Bytes, (pkcs7PaddingPlusLen m _blocksize).toNat ≤ room.length →
    ∃ data, pkcs7Padding (some (buf.take m ++ room)) m _blocksize = some (some data, buf.length) ∧
      data.take buf.length = buf

/-! ## the tail -/

/-- the last `k` of the first `len` bytes are `c` -/
def Tail (data : Bytes) (len : Nat) (c : UInt8) (k : Nat) : Prop :=
  data.take len = data.take (len - k) ++ List.replicate k c

instance (data : Bytes) (len : Nat) (c : UInt8) (k : Nat) : Decidable (Tail data len c k) :=
  inferInstanceAs (Decidable (_ = _))

theorem tail_iff {data : Bytes} {len k : Nat} (c : UInt8) (hlen : len ≤ data.length)
    (hk : k ≤ len) : Tail data len c k ↔ ∀ j < k, data[len - 1 - j]? = some c := by
  have hdrop : data.take len = data.take (len - k) ++ (data.take len).drop (len - k) := by
    have h := List.take_append_drop (len - k) (data.take len)
    rw [List.take_take, Nat.min_eq_left (Nat.sub_le _ _)] at h
    exact h.symm
  have hget : ∀ i < k, ((data.take len).drop (len - k))[i]? = data[len - k + i]? := by
    intro i hi
    rw [List.getElem?_drop, List.getElem?_take_of_lt (by omega)]
  unfold Tail
  rw [hdrop, List.append_right_inj, List.eq_replicate_iff]
  constructor
  · rintro ⟨-, h⟩ j hj
    have h1 := hget (k - 1 - j) (by omega)
    rw [show len - k + (k - 1 - j) = len - 1 - j by omega] at h1
    rw [← h1, List.getElem?_eq_some_iff]
    refine ⟨by rw [List.length_drop, List.length_take]; omega, ?_⟩
    exact h _ (List.getElem_mem _)
  · intro h
    refine ⟨by rw [List.length_drop, List.length_take]; omega, fun b hb => ?_⟩
    obtain ⟨i, hi, rfl⟩ := List.getElem_of_mem hb
    have hik : i < k := by
      rw [List.length_drop, List.length_take] at hi
      omega
    have h1 := h (k - 1 - i) (by omega)
    rw [show len - 1 - (k - 1 - i) = len - k + i by omega, ← hget i hik] at h1
    exact (List.getElem?_eq_some_iff.mp h1).2

/-- **The loop**, begun anywhere. -/
theorem checkTail_eq {data : Bytes} {len : Nat} (c : UInt8) (hlen : len ≤ data.length)
    (k : Nat) (offset : Nat) (hk : offset + k ≤ len) :
    ∃ same, checkTail data len c k offset = some same ∧
      (same = true ↔ ∀ j < k, data[len - 1 - (offset + j)]? = some c) := by
  induction k generalizing offset with
  | zero => exact ⟨true, rfl, iff_of_true rfl (fun j hj => absurd hj (Nat.not_lt_zero j))⟩
  | succ k ih =>
    obtain ⟨b, hb⟩ : ∃ b, data[len - 1 - offset]? = some b :=
      ⟨_, List.getElem?_eq_getElem (by omega)⟩
    unfold checkTail
    rw [hb, Option.bind_some]
    by_cases hc : c = b
    · obtain ⟨same, hs, hiff⟩ := ih (offset + 1) (by omega)
      rw [if_neg (not_not.mpr hc)]
      refine ⟨same, hs, hiff.trans ⟨fun h j hj => ?_, fun h j hj => ?_⟩⟩
      · cases j with
        | zero => rw [Nat.add_zero, hb, hc]
        | succ j =>
          rw [show offset + (j + 1) = offset + 1 + j by omega]
          exact h j (by omega)
      · rw [show offset + 1 + j = offset + (j + 1) by omega]
        exact h (j + 1) (by omega)
    · rw [if_pos hc]
      refine ⟨false, rfl, iff_of_false Bool.false_ne_true (fun h => hc ?_)⟩
      have h0 := h 0 (Nat.succ_pos k)
      rw [Nat.add_zero, hb] at h0
      exact (Option.some.inj h0).symm

/-! ## de-padding -/

section
variable {data : Bytes} {n m : Nat}

theorem pkcs7Depadding_iff (hn : n ≤ data.length) (hm : 0 < m) :
    pkcs7Depadding (some data) n = some m ↔
      ∃ c, data[n - 1]? = some c ∧ c.toNat ≤ n ∧ Tail data n c c.toNat ∧ m = n - c.toNat := by
  unfold pkcs7Depadding
  by_cases h0 : 0 < n
  · obtain ⟨c, hc⟩ : ∃ c, data[n - 1]? = some c := ⟨_, List.getElem?_eq_getElem (by omega)⟩
    simp only [not_not.mpr h0, if_false, hc, Option.bind_some]
    by_cases hle : n < c.toNat
    · rw [if_pos hle]
      constructor
      · intro h
        cases h
        exact absurd hm (Nat.lt_irrefl 0)
      · rintro ⟨c', hc', hle', -⟩
        cases hc'
        omega
    · rw [if_neg hle]
      have hle' := Nat.le_of_not_lt hle
      obtain ⟨same, hs, hiff⟩ := checkTail_eq c hn c.toNat 0 (by omega)
      have htail : same = true ↔ Tail data n c c.toNat := by
        rw [hiff, tail_iff c hn hle']
        simp only [Nat.zero_add]
      rw [hs, Option.map_some]
      cases same with
      | false =>
        constructor
        · intro h
          cases h
          exact absurd hm (Nat.lt_irrefl 0)
        · rintro ⟨c', hc', -, ht, -⟩
          cases hc'
          exact absurd (htail.mpr ht) Bool.false_ne_true
      | true =>
        rw [if_pos rfl]
        constructor
        · intro h
          cases h
          exact ⟨c, rfl, hle', htail.mp rfl, rfl⟩
        · rintro ⟨c', hc', -, -, rfl⟩
          cases hc'
          rfl
  · simp only [h0, not_false_eq_true, if_true]
    constructor
    · intro h
      cases h
      exact absurd hm (Nat.lt_irrefl 0)
    · rintro ⟨c, -, -, -, rfl⟩
      omega

theorem pkcs7DepaddingBlocksize_iff (hn : n ≤ data.length) (hm : 0 < m) (_blocksize : UInt8) :
    pkcs7DepaddingBlocksize (some data) n _blocksize = some m ↔
      ∃ c, c ≠ 0 ∧ pkcs7PaddingPlusLen m _blocksize = c ∧ n = m + c.toNat ∧
        Tail data n c c.toNat := by
  unfold pkcs7DepaddingBlocksize
  constructor
  · intro h
    obtain ⟨k, hk, h⟩ := Option.bind_eq_some_iff.mp h
    split at h
    · cases h
      exact absurd hm (Nat.lt_irrefl 0)
    · rename_i hk0
      obtain ⟨c, hc, hle, ht, rfl⟩ := (pkcs7Depadding_iff hn (Nat.pos_of_ne_zero hk0)).mp hk
      simp only [Option.bind_some, hc, Option.map_some] at h
      split at h
      · cases h
        exact absurd hm (Nat.lt_irrefl 0)
      · split at h
        · cases h
          exact absurd hm (Nat.lt_irrefl 0)
        · rename_i hc0
          split at h
          · cases h
            exact absurd hm (Nat.lt_irrefl 0)
          · rename_i hv
            cases h
            exact ⟨c, hc0, not_not.mp hv, (Nat.sub_add_cancel hle).symm, ht⟩
  · rintro ⟨c, hc0, hv, hnm, ht⟩
    have hpos : 0 < c.toNat := by
      refine Nat.pos_of_ne_zero (fun h => hc0 ?_)
      exact UInt8.toNat_inj.mp h
    have hlast : data[n - 1]? = some c := by
      have := (tail_iff c hn (by omega)).mp ht 0 hpos
      rwa [Nat.sub_zero] at this
    have hd : pkcs7Depadding (some data) n = some m :=
      (pkcs7Depadding_iff hn hm).mpr ⟨c, hlast, by omega, ht, by omega⟩
    rw [hd]
    simp only [Option.bind_some, hlast, Option.map_some, hv]
    rw [if_neg (Nat.pos_iff_ne_zero.mp hm), if_neg hc0, if_neg hc0, if_neg (not_not.mpr rfl)]

/-! ## padding -/

theorem pkcs7Padding_eq (msg room : Bytes) (_blocksize : UInt8) {c : UInt8}
    (hc : pkcs7PaddingPlusLen msg.length _blocksize = c) (hc0 : c ≠ 0)
    (hroom : c.toNat ≤ room.length) :
    pkcs7Padding (some (msg ++ room)) msg.length _blocksize =
      some (some (msg ++ List.replicate c.toNat c ++ room.drop c.toNat),
        (msg.length + c.toNat) % 2 ^ 32) := by
  unfold pkcs7Padding memset
  simp only [hc, hc0, if_false]
  rw [if_pos (by rw [List.length_append]; omega), Option.map_some, List.take_left',
    List.drop_append, List.drop_of_length_le (by omega), List.nil_append, Nat.add_sub_cancel_left]
  rfl

theorem isPadding_iff {buf : Bytes} (hbuf : buf.length < 2 ^ 32) (hm : 0 < m)
    (_blocksize : UInt8) :
    IsPadding buf m _blocksize ↔
      ∃ c, c ≠ 0 ∧ pkcs7PaddingPlusLen m _blocksize = c ∧ buf.length = m + c.toNat ∧
        buf = buf.take m ++ List.replicate c.toNat c := by
  have hlen : m ≤ buf.length → (buf.take m).length = m := by
    intro h
    rw [List.length_take, Nat.min_eq_left h]
  constructor
  · rintro ⟨hle, h⟩
    generalize hc : pkcs7PaddingPlusLen m _blocksize = c at h
    obtain ⟨data, hpad, htake⟩ := h (List.replicate c.toNat 0) (by rw [List.length_replicate])
    have hc0 : c ≠ 0 := by
      rintro rfl
      unfold pkcs7Padding at hpad
      simp only [hc, if_true] at hpad
      have := congrArg Prod.snd (Option.some.inj hpad)
      simp only at this
      omega
    have he := pkcs7Padding_eq (buf.take m) (List.replicate c.toNat 0) _blocksize
      (by rw [hlen hle]; exact hc) hc0 (by rw [List.length_replicate])
    rw [hlen hle, hpad] at he
    have h1 : data = _ := Option.some.inj (congrArg Prod.fst (Option.some.inj he))
    have h2 : buf.length = _ := congrArg Prod.snd (Option.some.inj he)
    have h3 := UInt8.toNat_lt c
    have hsum : buf.length = m + c.toNat := by omega
    refine ⟨c, hc0, rfl, hsum, ?_⟩
    rw [h1, List.drop_of_length_le (by rw [List.length_replicate]), List.append_nil,
      List.take_of_length_le] at htake
    · exact htake.symm
    · rw [List.length_append, List.length_replicate, hlen hle, hsum]
  · rintro ⟨c, hc0, hc, hsum, htail⟩
    have hle : m ≤ buf.length := by omega
    refine ⟨hle, fun room hroom => ?_⟩
    rw [hc] at hroom
    have he := pkcs7Padding_eq (buf.take m) room _blocksize
      (by rw [hlen hle]; exact hc) hc0 hroom
    rw [hlen hle, ← hsum, Nat.mod_eq_of_lt hbuf, ← htail] at he
    exact ⟨_, he, List.take_left' rfl⟩

theorem pkcs7PaddingPlusLen_spec {n : Nat} {_blocksize : UInt8} (hn : 0 < n)
    (hb : _blocksize ≠ 0) :
    (pkcs7PaddingPlusLen n _blocksize).toNat = _blocksize.toNat - n % _blocksize.toNat ∧
      pkcs7PaddingPlusLen n _blocksize ≠ 0 := by
  have hb' : 0 < _blocksize.toNat := Nat.pos_of_ne_zero (fun h => hb (UInt8.toNat_inj.mp h))
  have hlt := Nat.mod_lt n hb'
  have h256 := UInt8.toNat_lt _blocksize
  have he : (pkcs7PaddingPlusLen n _blocksize).toNat =
      _blocksize.toNat - n % _blocksize.toNat := by
    unfold pkcs7PaddingPlusLen
    rw [if_neg (not_not.mpr ⟨hb', hn⟩)]
    exact Nat.mod_eq_of_lt (by omega)
  refine ⟨he, fun h0 => ?_⟩
  rw [h0] at he
  have : (0 : UInt8).toNat = 0 := rfl
  omega

/-- **De-padding undoes padding, and nothing else.**  A positive result `m` says that the bytes are
the padding of their first `m`; and a padded message comes back. -/
theorem depadding_padding :
    (∀ (data : Bytes) (n m : Nat) (_blocksize : UInt8), n ≤ data.length → n < 2 ^ 32 → 0 < m →
      (pkcs7DepaddingBlocksize (some data) n _blocksize = some m ↔
        IsPadding (data.take n) m _blocksize)) ∧
    ∀ (msg room : Bytes) (_blocksize : UInt8), msg ≠ [] → _blocksize ≠ 0 →
      (pkcs7PaddingPlusLen msg.length _blocksize).toNat ≤ room.length →
      msg.length + (pkcs7PaddingPlusLen msg.length _blocksize).toNat < 2 ^ 32 →
      ∃ data n, pkcs7Padding (some (msg ++ room)) msg.length _blocksize = some (some data, n) ∧
        pkcs7DepaddingBlocksize (some data) n _blocksize = some msg.length ∧
        data.take msg.length = msg := by
  constructor
  · intro data n m _blocksize hn hlt hm
    have hlen : (data.take n).length = n := by
      rw [List.length_take, Nat.min_eq_left hn]
    rw [pkcs7DepaddingBlocksize_iff hn hm, isPadding_iff (by omega) hm, hlen]
    refine exists_congr fun c => and_congr_right fun _ => and_congr_right fun _ =>
      and_congr_right fun hnm => ?_
    unfold Tail
    rw [List.take_take, show n - c.toNat = m by omega, Nat.min_eq_left (show m ≤ n by omega)]
  · intro msg room _blocksize hmsg hb hroom hlt
    have hpos := List.length_pos_iff.mpr hmsg
    have hc0 := (pkcs7PaddingPlusLen_spec hpos hb).2
    generalize hc : pkcs7PaddingPlusLen msg.length _blocksize = c at hroom hlt hc0
    refine ⟨_, _, pkcs7Padding_eq _ _ _ hc hc0 hroom, ?_, ?_⟩
    · rw [Nat.mod_eq_of_lt hlt]
      refine (pkcs7DepaddingBlocksize_iff ?_ hpos _blocksize).mpr ⟨c, hc0, hc, rfl, ?_⟩
      · rw [List.length_append, List.length_append, List.length_replicate]
        omega
      · unfold Tail
        rw [Nat.add_sub_cancel, List.append_assoc, List.take_left' rfl, ← List.append_assoc,
          List.take_left']
        rw [List.length_append, List.length_replicate]
    · rw [List.append_assoc, List.take_left' rfl]

theorem depadding_padding_hello :
    IsPadding [104, 101, 108, 108, 111, 3, 3, 3] 5 8 ∧
    ∃ data n, pkcs7Padding (some [104, 101, 108, 108, 111, 0, 0, 0]) 5 8 = some (some data, n) ∧
      pkcs7DepaddingBlocksize (some data) n 8 = some 5 ∧
      data.take 5 = [104, 101, 108, 108, 111] :=
  ⟨(depadding_padding.1 [104, 101, 108, 108, 111, 3, 3, 3] 8 5 8 (by decide) (by decide)
      (by decide)).mp (by decide),
    depadding_padding.2 [104, 101, 108, 108, 111] [0, 0, 0] 8 (by decide) (by decide) (by decide)
      (by decide)⟩

end

/-! ## without a block size -/

/-- what a length `m` that is not 0 says of a buffer: the bytes behind the first `m` are 1 to 255, and
each of them is their number -/
structure Padded (buf : Bytes) (m : Nat) : Prop where
  le : m ≤ buf.length
  pos : 1 ≤ buf.length - m
  small : buf.length - m ≤ 255
  same : ∀ c ∈ buf.drop m, c.toNat = buf.length - m

theorem padded_of_tail {buf : Bytes} {c : UInt8} (hpos : 0 < c.toNat) (hle : c.toNat ≤ buf.length)
    (ht : Tail buf buf.length c c.toNat) : Padded buf (buf.length - c.toNat) := by
  have hlt := c.toNat_lt
  have hpad : buf.length - (buf.length - c.toNat) = c.toNat := by omega
  have hdrop : buf.drop (buf.length - c.toNat) = List.replicate c.toNat c := by
    have h := congrArg (List.drop (buf.length - c.toNat)) ht
    rwa [List.take_length, List.drop_left' (by rw [List.length_take]; omega)] at h
  refine ⟨Nat.sub_le _ _, by omega, by omega, fun x hx => ?_⟩
  rw [hdrop] at hx
  rw [hpad, List.eq_of_mem_replicate hx]

/-- **De-padding without a block size**: a length that is not 0 is that of a padded buffer, for every
buffer that does not end with 0 and for no other. -/
theorem depadding_iff (buf : Bytes) :
    (∃ m, pkcs7Depadding (some buf) buf.length = some m ∧ (m ≠ 0 → Padded buf m)) ↔
      buf.getLast? ≠ some 0 := by
  rw [List.getLast?_eq_getElem?]
  constructor
  · rintro ⟨m, hm, hpad⟩ hlast
    have hpos : 0 < buf.length := by
      by_contra h
      rw [List.length_eq_zero_iff.mp (Nat.eq_zero_of_not_pos h)] at hlast
      cases hlast
    -- no byte is compared, and the length is returned as it came
    have hall : pkcs7Depadding (some buf) buf.length = some buf.length :=
      (pkcs7Depadding_iff le_rfl hpos).mpr
        ⟨0, hlast, Nat.zero_le _, by simp [Tail], (Nat.sub_zero _).symm⟩
    rw [hm] at hall
    cases hall
    have := (hpad hpos.ne').pos
    omega
  · intro hlast
    obtain ⟨m, hm⟩ : ∃ m, pkcs7Depadding (some buf) buf.length = some m := by
      unfold pkcs7Depadding
      by_cases hpos : 0 < buf.length
      · obtain ⟨c, hc⟩ : ∃ c, buf[buf.length - 1]? = some c := ⟨_, List.getElem?_eq_getElem (by omega)⟩
        simp only [not_not.mpr hpos, if_false, hc, Option.bind_some]
        split
        · exact ⟨0, rfl⟩
        · have hlen : buf.length ≤ buf.length := le_rfl
          obtain ⟨same, hs, -⟩ := checkTail_eq c hlen c.toNat 0 (by omega)
          exact ⟨_, by rw [hs]; rfl⟩
      · exact ⟨0, by simp only [hpos, not_false_eq_true, if_true]⟩
    refine ⟨m, hm, fun hne => ?_⟩
    obtain ⟨c, hc, hle, ht, rfl⟩ := (pkcs7Depadding_iff le_rfl (Nat.pos_of_ne_zero hne)).mp hm
    refine padded_of_tail (Nat.pos_of_ne_zero fun h0 => hlast ?_) hle ht
    rw [hc, show c = 0 from UInt8.toNat_inj.mp h0]

/-- a buffer that ends with 0 passes as it is -/
theorem depadding_zero : pkcs7Depadding (some [104, 105, 0]) 3 = some 3 ∧ ¬ Padded [104, 105, 0] 3 := by
  refine ⟨by decide, fun h => ?_⟩
  exact absurd h.pos (by decide)

end Pkcs7
