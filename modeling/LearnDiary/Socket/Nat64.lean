import LearnDiary.Dns.Addrinfo

/-!
# NAT64 addresses (comm/socket/nat64_prefix_util.cc)

The code guesses the length of the prefix from the zeros at the end of the address.  `Pref64` is a
prefix of RFC 6052, whose bits 64 to 71 are zero where it has them, and `Pref64.embed` an IPv4 address
under it: behind the prefix, around the octet of these bits, with a suffix of zeros.

* `suffix_embed`   the guess is right for an address whose last byte is not 0;
* `valid_embed`    the address of a well-known one is accepted;
* `replace_embed`  another address takes the place of a well-known one.
-/

namespace Nat64
open Dns (InAddr)

/-- `struct in6_addr` -/
structure In6Addr where
  s6_addr : Bytes
  length_eq : s6_addr.length = 16
deriving DecidableEq

/-! ## the code -/

def kWellKnownV4Addr1 : Bytes := [192, 0, 0, 170]
def kWellKnownV4Addr2 : Bytes := [192, 0, 0, 171]
def kOurDefineV4Addr : Bytes := [192, 0, 2, 1]

/-- insert 0 after the first byte -/
def kWellKnownV4Addr1_index1 : Bytes := [192, 0, 0, 0, 170]
def kWellKnownV4Addr2_index1 : Bytes := [192, 0, 0, 0, 171]
def kOurDefineV4Addr_index1 : Bytes := [192, 0, 0, 2, 1]

/-- insert 0 after the second byte -/
def kWellKnownV4Addr1_index2 : Bytes := [192, 0, 0, 0, 170]
def kWellKnownV4Addr2_index2 : Bytes := [192, 0, 0, 0, 171]
def kOurDefineV4Addr_index2 : Bytes := [192, 0, 0, 2, 1]

/-- insert 0 after the third byte -/
def kWellKnownV4Addr1_index3 : Bytes := [192, 0, 0, 0, 170]
def kWellKnownV4Addr2_index3 : Bytes := [192, 0, 0, 0, 171]
def kOurDefineV4Addr_index3 : Bytes := [192, 0, 2, 0, 1]

/-- the loop, with the bytes from the front that are left -/
def suffixLoop (_buf : Bytes) : Nat → Nat → Nat
  | 0, zero_count => zero_count
  | n + 1, zero_count =>
    if _buf[n]? = some 0 then suffixLoop _buf n (zero_count + 1) else zero_count

def getSuffixZeroCount (_buf : Bytes) : Nat := suffixLoop _buf _buf.length 0

/-- `0 == memcmp(buf + off, s, sizeof(s))` -/
def memEq (buf : Bytes) (off : Nat) (s : Bytes) : Bool := (buf.drop off).take s.length == s

/-- a case of `IsNat64AddrValid` -/
def isOneOf (is_iOS_above_9_2 : Bool) (buf : Bytes) (off : Nat) (ours known1 known2 : Bytes) : Bool :=
  if is_iOS_above_9_2 then memEq buf off ours else memEq buf off known1 || memEq buf off known2

/-- the `switch` of `IsNat64AddrValid` -/
def validSwitch (is_iOS_above_9_2 : Bool) (suffix_zero_count : Nat) (buf : Bytes) : Bool :=
  let check := isOneOf is_iOS_above_9_2 buf
  match suffix_zero_count with
  | 3 => check 9 kOurDefineV4Addr kWellKnownV4Addr1 kWellKnownV4Addr2
  | 4 => check 7 kOurDefineV4Addr_index1 kWellKnownV4Addr1_index1 kWellKnownV4Addr2_index1
  | 5 => check 6 kOurDefineV4Addr_index2 kWellKnownV4Addr1_index2 kWellKnownV4Addr2_index2
  | 6 => check 5 kOurDefineV4Addr_index3 kWellKnownV4Addr1_index3 kWellKnownV4Addr2_index3
  | 8 => check 4 kOurDefineV4Addr kWellKnownV4Addr1 kWellKnownV4Addr2
  | 0 => check 12 kOurDefineV4Addr kWellKnownV4Addr1 kWellKnownV4Addr2
  | _ => false

/-- `IsNat64AddrValid`; `is_iOS_above_9_2` is the test of the system version -/
def isNat64AddrValid (is_iOS_above_9_2 : Bool) (_replaced_nat64_addr : In6Addr) : Bool :=
  validSwitch is_iOS_above_9_2 (getSuffixZeroCount _replaced_nat64_addr.s6_addr)
    _replaced_nat64_addr.s6_addr

/-- `memcpy(buf + off, s, sizeof(s))` -/
def memcpy (buf : Bytes) (off : Nat) (s : Bytes) : Bytes :=
  buf.take off ++ s ++ buf.drop (off + s.length)

/-- the `switch` of `ReplaceNat64WithV4IP` -/
def replaceSwitch (suffix_zero_count : Nat) (buf v4 : Bytes) : Bytes :=
  match suffix_zero_count with
  | 3 => memcpy buf 9 v4
  | 4 => memcpy (memcpy (memcpy buf 7 (v4.take 1)) 8 [0]) 9 (v4.drop 1)
  | 5 => memcpy (memcpy (memcpy buf 6 (v4.take 2)) 8 [0]) 9 (v4.drop 2)
  | 6 => memcpy (memcpy (memcpy buf 5 (v4.take 3)) 8 [0]) 9 (v4.drop 3)
  | 8 => memcpy buf 4 v4
  | 0 => memcpy buf 12 v4
  | _ => memcpy buf 12 v4

theorem length_memcpy {buf s : Bytes} {off : Nat} (h : off + s.length ≤ buf.length) :
    (memcpy buf off s).length = buf.length := by
  unfold memcpy
  rw [List.length_append, List.length_append, List.length_take, List.length_drop]
  omega

theorem length_replaceSwitch (n : Nat) {buf v4 : Bytes} (hb : buf.length = 16)
    (h4 : v4.length = 4) : (replaceSwitch n buf v4).length = 16 := by
  have hwhole : ∀ off ≤ 12, (memcpy buf off v4).length = 16 := fun off ho => by
    rw [length_memcpy (by omega), hb]
  -- the bytes before the octet, the octet, and the bytes behind it
  have hsplit : ∀ k ≤ 3, (memcpy (memcpy (memcpy buf (8 - k) (v4.take k)) 8 [0]) 9
      (v4.drop k)).length = 16 := by
    intro k hk
    have h1 : (memcpy buf (8 - k) (v4.take k)).length = 16 := by
      rw [length_memcpy (by rw [List.length_take]; omega), hb]
    have h2 : (memcpy (memcpy buf (8 - k) (v4.take k)) 8 [0]).length = 16 := by
      rw [length_memcpy (by rw [h1]; decide), h1]
    rw [length_memcpy (by rw [h2, List.length_drop]; omega), h2]
  unfold replaceSwitch
  split
  · exact hwhole 9 (by decide)
  · exact hsplit 1 (by decide)
  · exact hsplit 2 (by decide)
  · exact hsplit 3 (by decide)
  · exact hwhole 4 (by decide)
  · exact hwhole 12 (by decide)
  · exact hwhole 12 (by decide)

/-- `ReplaceNat64WithV4IP` -/
def replaceNat64WithV4IP (_replaced_nat64_addr : In6Addr) (_v4_addr : InAddr) : In6Addr :=
  ⟨replaceSwitch (getSuffixZeroCount _replaced_nat64_addr.s6_addr) _replaced_nat64_addr.s6_addr
      _v4_addr.octets,
    length_replaceSwitch _ _replaced_nat64_addr.length_eq rfl⟩

/-! ## RFC 6052 -/

/-- a prefix of 32, 40, 48, 56, 64 or 96 bits -/
structure Pref64 where
  bytes : Bytes
  length_mem : bytes.length ∈ [4, 5, 6, 7, 8, 12]
  /-- the bits 64 to 71 are zero -/
  octet : bytes.length = 12 → bytes[8]? = some 0

/-- the bytes of the address: a prefix of 96 bits has the octet in it -/
def embedBytes (p : Bytes) (x : InAddr) : Bytes :=
  if p.length = 12 then p ++ x.octets
  else
    let front := p ++ x.octets
    front.take 8 ++ 0 :: (front.drop 8 ++ List.replicate (15 - front.length) 0)

theorem length_embedBytes (p : Pref64) (x : InAddr) : (embedBytes p.bytes x).length = 16 := by
  have hmem := p.length_mem
  have h4 : x.octets.length = 4 := rfl
  simp only [List.mem_cons, List.not_mem_nil, or_false] at hmem
  unfold embedBytes
  split
  · rw [List.length_append]
    omega
  · simp only [List.length_append, List.length_cons, List.length_take, List.length_drop,
      List.length_replicate]
    omega

/-- the IPv4 address `x` under the prefix -/
def Pref64.embed (p : Pref64) (x : InAddr) : In6Addr := ⟨embedBytes p.bytes x, length_embedBytes p x⟩

def WellKnown (x : InAddr) : Prop := x = ⟨192, 0, 0, 170⟩ ∨ x = ⟨192, 0, 0, 171⟩

/-! ## the guess -/

theorem suffixLoop_zeros {l : Bytes} {c : UInt8} (hc : c ≠ 0) (k z n : Nat) (hk : k ≤ z) :
    suffixLoop (l ++ c :: List.replicate z 0) (l.length + 1 + k) n = n + k := by
  induction k generalizing n with
  | zero =>
    have hget : (l ++ c :: List.replicate z 0)[l.length]? = some c := by
      rw [List.getElem?_append_right le_rfl, Nat.sub_self]
      rfl
    rw [Nat.add_zero, suffixLoop, hget, if_neg (by simpa using hc)]
    rfl
  | succ k ih =>
    have hget : (l ++ c :: List.replicate z 0)[l.length + 1 + k]? = some 0 := by
      rw [List.getElem?_append_right (by omega), show l.length + 1 + k - l.length = k + 1 by omega,
        List.getElem?_cons_succ, List.getElem?_replicate, if_pos (by omega)]
    rw [← Nat.add_assoc, suffixLoop, hget, if_pos rfl, ih (n + 1) (by omega)]
    omega

theorem suffix_zeros {l : Bytes} {c : UInt8} (hc : c ≠ 0) (z : Nat) :
    getSuffixZeroCount (l ++ c :: List.replicate z 0) = z := by
  have hlen : (l ++ c :: List.replicate z 0).length = l.length + 1 + z := by
    rw [List.length_append, List.length_cons, List.length_replicate]
    omega
  unfold getSuffixZeroCount
  rw [hlen, suffixLoop_zeros hc z z 0 le_rfl, Nat.zero_add]

theorem Pref64.cases {P : Bytes → Prop} (p : Pref64) (h4 : ∀ a b c d, P [a, b, c, d])
    (h5 : ∀ a b c d e, P [a, b, c, d, e]) (h6 : ∀ a b c d e f, P [a, b, c, d, e, f])
    (h7 : ∀ a b c d e f g, P [a, b, c, d, e, f, g])
    (h8 : ∀ a b c d e f g h, P [a, b, c, d, e, f, g, h])
    (h12 : ∀ a b c d e f g h j k l, P [a, b, c, d, e, f, g, h, 0, j, k, l]) : P p.bytes := by
  obtain ⟨bytes, hmem, hoctet⟩ := p
  dsimp only
  simp only [List.mem_cons, List.not_mem_nil, or_false] at hmem
  rcases hmem with h | h | h | h | h | h
  · match bytes, h with
    | [a, b, c, d], _ => exact h4 a b c d
  · match bytes, h with
    | [a, b, c, d, e], _ => exact h5 a b c d e
  · match bytes, h with
    | [a, b, c, d, e, f], _ => exact h6 a b c d e f
  · match bytes, h with
    | [a, b, c, d, e, f, g], _ => exact h7 a b c d e f g
  · match bytes, h with
    | [a, b, c, d, e, f, g, h'], _ => exact h8 a b c d e f g h'
  · match bytes, h with
    | [a, b, c, d, e, f, g, h', i, j, k, l], h =>
      have hi : some i = some 0 := hoctet h
      cases hi
      exact h12 a b c d e f g h' j k l

/-- the zeros at the end for a prefix of `n` bytes: the suffix, and the octet where it is next to
it -/
def suffixOf (n : Nat) : Nat := if n = 4 then 8 else if n = 12 then 0 else 11 - n

/-- **The guess.**  The zeros at the end give the length of the prefix. -/
theorem suffix_embed (p : Pref64) {w : InAddr} (hd : w.d ≠ 0) :
    getSuffixZeroCount (embedBytes p.bytes w) = suffixOf p.bytes.length := by
  refine p.cases (P := fun l => getSuffixZeroCount (embedBytes l w) = suffixOf l.length)
    ?_ ?_ ?_ ?_ ?_ ?_
  · exact fun a b c d => suffix_zeros (l := [a, b, c, d, w.a, w.b, w.c]) hd 8
  · exact fun a b c d e => suffix_zeros (l := [a, b, c, d, e, w.a, w.b, w.c, 0]) hd 6
  · exact fun a b c d e f => suffix_zeros (l := [a, b, c, d, e, f, w.a, w.b, 0, w.c]) hd 5
  · exact fun a b c d e f g => suffix_zeros (l := [a, b, c, d, e, f, g, w.a, 0, w.b, w.c]) hd 4
  · exact fun a b c d e f g h =>
      suffix_zeros (l := [a, b, c, d, e, f, g, h, 0, w.a, w.b, w.c]) hd 3
  · exact fun a b c d e f g h j k l =>
      suffix_zeros (l := [a, b, c, d, e, f, g, h, 0, j, k, l, w.a, w.b, w.c]) hd 0

theorem WellKnown.d_ne {w : InAddr} (hw : WellKnown w) : w.d ≠ 0 := by
  rcases hw with rfl | rfl <;> decide

/-! ## the two switches -/

theorem valid_embed (p : Pref64) {w : InAddr} (hw : WellKnown w) :
    isNat64AddrValid false (p.embed w) = true := by
  have hguess := suffix_embed p hw.d_ne
  show validSwitch false (getSuffixZeroCount (embedBytes p.bytes w)) (embedBytes p.bytes w) = true
  rw [hguess]
  refine p.cases (P := fun l => validSwitch false (suffixOf l.length) (embedBytes l w) = true)
    ?_ ?_ ?_ ?_ ?_ ?_
  all_goals rcases hw with rfl | rfl <;> intros <;> rfl

theorem replace_embed (p : Pref64) {w : InAddr} (hd : w.d ≠ 0) (x : InAddr) :
    replaceNat64WithV4IP (p.embed w) x = p.embed x := by
  have hguess := suffix_embed p hd
  have hbytes : replaceSwitch (suffixOf p.bytes.length) (embedBytes p.bytes w) x.octets =
      embedBytes p.bytes x := by
    refine p.cases
      (P := fun l => replaceSwitch (suffixOf l.length) (embedBytes l w) x.octets = embedBytes l x)
      ?_ ?_ ?_ ?_ ?_ ?_
    all_goals intros; rfl
  unfold replaceNat64WithV4IP Pref64.embed
  simp only [hguess, hbytes]

/-- **The synthesis**: the well-known address is accepted under every prefix, and the address that
takes its place is embedded as RFC 6052 says. -/
theorem synthesis (p : Pref64) (w x : InAddr) (hw : WellKnown w) :
    isNat64AddrValid false (p.embed w) = true ∧
      replaceNat64WithV4IP (p.embed w) x = p.embed x :=
  ⟨valid_embed p hw, replace_embed p hw.d_ne x⟩

def wellKnownPrefix : Pref64 :=
  ⟨[0, 100, 255, 155, 0, 0, 0, 0, 0, 0, 0, 0], by decide, fun _ => rfl⟩

theorem synthesis_wellKnown :
    isNat64AddrValid false (wellKnownPrefix.embed ⟨192, 0, 0, 170⟩) = true ∧
      replaceNat64WithV4IP (wellKnownPrefix.embed ⟨192, 0, 0, 170⟩) ⟨10, 0, 0, 1⟩ =
        wellKnownPrefix.embed ⟨10, 0, 0, 1⟩ :=
  synthesis wellKnownPrefix ⟨192, 0, 0, 170⟩ ⟨10, 0, 0, 1⟩ (Or.inl rfl)

end Nat64
