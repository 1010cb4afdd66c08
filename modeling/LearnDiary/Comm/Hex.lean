import LearnDiary.Base.Bytes

/-!
# Hexadecimal text (comm/strutil.cc)

Both lengths are `unsigned int`.  A read outside of the string and a write behind `outbuffer` have no
outcome.

* `hex2Str_eq`      two digits for each byte;
* `str2Hex_eq`      the bytes back, as far as `outbuffer` goes;
* `hex_roundtrip`   both together.
-/

namespace Strutil

/-! ## the code -/

/-- `%02x` of an `unsigned char`, cut to the six bytes that `snprintf` is given room for -/
def format02x (c : UInt8) : Bytes :=
  (List.replicate (2 - (printNat 16 c.toNat).length) 48 ++ printNat 16 c.toNat).take 6

/-- the loop of `Hex2Str` -/
def hex2Str (_str : Bytes) (_len : Nat) : Option Bytes :=
  (List.range _len).foldlM (fun outstr i => (_str[i]?).map fun c => outstr ++ format02x c) []

/-- `(char) n` -/
def toChar (n : Int) : UInt8 := UInt8.ofNat (n % 256).toNat

/-- one round: `tmp` has the two characters and two NULs -/
def str2HexStep (ptr outbuffer : Bytes) (i : Nat) : Option Bytes := do
  let first ← ptr[i * 2]?
  let second ← ptr[i * 2 + 1]?
  if outbuffer.length < 64 then
    some (outbuffer ++ [toChar (strtol 16 [first, second, 0, 0])])
  else none

/-- `Str2Hex`, `outbuffer` up to `outoffset` -/
def str2Hex (_str : Bytes) (_len : Nat) : Option Bytes :=
  let length := if 64 < _len / 2 then 64 else _len / 2
  (List.range length).foldlM (str2HexStep _str) []

/-- a `size_t` as an `unsigned int` -/
def toUInt (n : Nat) : Nat := n % 2 ^ 32

/-- `Str2Hex` of the text that `Hex2Str` gives, each with the length of its string -/
def hexAndBack (x : Bytes) : Option Bytes :=
  (hex2Str x (toUInt x.length)).bind fun s => str2Hex s (toUInt s.length)

/-! ## one byte -/

/-- the digits are read back, for every byte: `strtol` does not see it as a signed number -/
theorem byte_digits : ∀ n < 256, (format02x (UInt8.ofNat n)).length = 2 ∧
    toChar (strtol 16 (format02x (UInt8.ofNat n) ++ [0, 0])) = UInt8.ofNat n := by
  decide +kernel

theorem format02x_pair (c : UInt8) : ∃ first second, format02x c = [first, second] ∧
    toChar (strtol 16 [first, second, 0, 0]) = c := by
  have h := byte_digits c.toNat c.toNat_lt
  rw [UInt8.ofNat_toNat] at h
  obtain ⟨first, second, he⟩ := List.length_eq_two.mp h.1
  rw [he] at h
  exact ⟨first, second, he, h.2⟩

/-! ## the loops -/

theorem hex2Str_eq {x : Bytes} {n : Nat} (hn : n ≤ x.length) :
    hex2Str x n = some ((x.take n).flatMap format02x) := by
  unfold hex2Str
  induction n with
  | zero => rfl
  | succ n ih =>
    rw [List.range_succ, List.foldlM_append, ih (by omega), List.take_succ_eq_append_getElem hn,
      List.flatMap_append, Option.bind_eq_bind, Option.bind_some, List.foldlM_cons,
      List.getElem?_eq_getElem hn, List.flatMap_singleton]
    rfl

theorem drop_digits (y : Bytes) (i : Nat) :
    (y.flatMap format02x).drop (i * 2) = (y.drop i).flatMap format02x := by
  induction i generalizing y with
  | zero => rw [Nat.zero_mul, List.drop_zero, List.drop_zero]
  | succ i ih =>
    cases y with
    | nil => simp
    | cons c y =>
      obtain ⟨first, second, he, -⟩ := format02x_pair c
      rw [List.flatMap_cons, he, Nat.succ_mul, List.drop_succ_cons, ← ih y]
      rfl

theorem str2HexStep_eq {y out : Bytes} {i : Nat} (hi : i < y.length) (hout : out.length < 64) :
    str2HexStep (y.flatMap format02x) out i = some (out ++ [y[i]]) := by
  obtain ⟨first, second, he, hback⟩ := format02x_pair y[i]
  have hdrop : (y.flatMap format02x).drop (i * 2) =
      first :: second :: (y.drop (i + 1)).flatMap format02x := by
    rw [drop_digits, List.drop_eq_getElem_cons hi, List.flatMap_cons, he]
    rfl
  have hfirst : (y.flatMap format02x)[i * 2]? = some first := by
    rw [← List.head?_drop, hdrop]
    rfl
  have hsecond : (y.flatMap format02x)[i * 2 + 1]? = some second := by
    rw [← List.head?_drop, ← List.drop_drop, hdrop]
    rfl
  unfold str2HexStep
  rw [hfirst, hsecond]
  show (if out.length < 64 then _ else _) = _
  rw [if_pos hout, hback]

theorem str2HexLoop_eq {y : Bytes} {n : Nat} (hn : n ≤ y.length) (h64 : n ≤ 64) :
    (List.range n).foldlM (str2HexStep (y.flatMap format02x)) [] = some (y.take n) := by
  induction n with
  | zero => rfl
  | succ n ih =>
    have hlen : (y.take n).length < 64 := by
      rw [List.length_take]
      omega
    rw [List.range_succ, List.foldlM_append, ih (by omega) (by omega),
      List.take_succ_eq_append_getElem hn, Option.bind_eq_bind, Option.bind_some, List.foldlM_cons,
      str2HexStep_eq hn hlen]
    rfl

theorem str2Hex_eq {y : Bytes} {m : Nat} (hm : m / 2 ≤ y.length) :
    str2Hex (y.flatMap format02x) m = some (y.take (min 64 (m / 2))) := by
  have hlength : (if 64 < m / 2 then 64 else m / 2) = min 64 (m / 2) := by
    split <;> omega
  unfold str2Hex
  rw [hlength]
  exact str2HexLoop_eq (by omega) (Nat.min_le_left _ _)

theorem length_digits (y : Bytes) : (y.flatMap format02x).length = 2 * y.length := by
  induction y with
  | nil => rfl
  | cons c y ih =>
    obtain ⟨first, second, he, -⟩ := format02x_pair c
    rw [List.flatMap_cons, he, List.length_append, ih, List.length_cons]
    simp only [List.length_cons, List.length_nil]
    omega

/-- **Both together**: the first 64 bytes come back, so all of them exactly for at most 64. -/
theorem hex_roundtrip (x : Bytes) :
    hexAndBack x = some (x.take (min 64 (x.length % 2 ^ 31))) ∧
      (hexAndBack x = some x ↔ x.length ≤ 64) := by
  have hback : hexAndBack x = some (x.take (min 64 (x.length % 2 ^ 31))) := by
    have hle : toUInt x.length ≤ x.length := Nat.mod_le _ _
    have hlen : (x.take (toUInt x.length)).length = toUInt x.length := by
      rw [List.length_take]
      omega
    have hhalf : toUInt (2 * toUInt x.length) / 2 = x.length % 2 ^ 31 := by
      unfold toUInt
      omega
    have hin : x.length % 2 ^ 31 ≤ toUInt x.length := by
      unfold toUInt
      omega
    unfold hexAndBack
    rw [hex2Str_eq hle, Option.bind_some, length_digits, hlen, str2Hex_eq (by omega), hhalf,
      List.take_take]
    congr 2
    omega
  refine ⟨hback, ?_⟩
  rw [hback, Option.some.injEq]
  constructor
  · intro h
    have hlen := congrArg List.length h
    rw [List.length_take] at hlen
    omega
  · intro h
    exact List.take_of_length_le (by omega)

/-- of 65 bytes the last one is lost -/
theorem hex_too_long : hexAndBack (List.replicate 65 7) ≠ some (List.replicate 65 7) := by
  decide +kernel

end Strutil
