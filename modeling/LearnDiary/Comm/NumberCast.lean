import LearnDiary.Comm.StringCast

/-!
# Numbers of every width from their text (comm/string_cast.h)

`number_cast<T>` compares what `strtoimax` or `strtoumax` gives with the limits of `T`.  The first
one saturates, and the second one also wraps a negative number around.
-/

namespace StringCast

/-- the types `number_cast` is specialized for -/
inductive Number where
  | int8
  | int16
  | int32
  | long
  | longLong
  | uint8
  | uint16
  | uint32
  | unsignedLong
  | unsignedLongLong
deriving DecidableEq

namespace Number

def signed : Number → Bool
  | .int8 | .int16 | .int32 | .long | .longLong => true
  | .uint8 | .uint16 | .uint32 | .unsignedLong | .unsignedLongLong => false

/-- `2 ^ width` -/
def modulus : Number → Nat
  | .int8 | .uint8 => 256
  | .int16 | .uint16 => 65536
  | .int32 | .uint32 => 2 ^ 32
  | .long | .longLong | .unsignedLong | .unsignedLongLong => 2 ^ 64

/-- `std::numeric_limits<T>::min()` -/
def min (t : Number) : Int := if t.signed then -(t.modulus / 2 : Nat) else 0

/-- `std::numeric_limits<T>::max()` -/
def max (t : Number) : Int := if t.signed then (t.modulus / 2 : Nat) - 1 else t.modulus - 1

/-- `static_cast<T>` -/
def cast (t : Number) (n : Int) : Int := if t.signed then n.bmod t.modulus else n % t.modulus

/-- the types of `string_cast` among them -/
def ofCInt : CInt → Number
  | .int => .int32
  | .long => .long
  | .longLong => .longLong
  | .unsignedInt => .uint32
  | .unsignedLong => .unsignedLong
  | .unsignedLongLong => .unsignedLongLong

/-- `__signed_number_cast<T>` and `__unsigned_number_cast<T>` -/
def castNumber (strtomax : Bytes → Int × Nat) (t : Number) : Option Bytes → NumberCast
  | none => ⟨0, false⟩
  | some _str =>
    let (value_, end_) := strtomax (cstr _str)
    if end_ = 0 then ⟨value_, false⟩
    else if value_ < t.min then ⟨t.min, false⟩
    else if t.max < value_ then ⟨t.max, false⟩
    else ⟨value_, true⟩

/-- `number_cast<T>` -/
def numberCast (t : Number) (_str : Option Bytes) : NumberCast :=
  if t.signed then castNumber strtoimax t _str else castNumber strtoumax t _str

theorem numberCast_ofCInt (t : CInt) : numberCast (ofCInt t) = StringCast.numberCast t := by
  funext s
  cases t <;> cases s <;> rfl

end Number

/-! ## what the text says -/

/-- there is a number at the front of `s` -/
def HasNumber (s : Bytes) : Prop := (strto (cstr s)).end_ ≠ 0

/-- the number at the front of `s` -/
def valueOf (s : Bytes) : Int :=
  if (strto (cstr s)).neg then -(strto (cstr s)).magnitude else (strto (cstr s)).magnitude

/-- valid for a number in the range of `T` and for nothing else, and then this number -/
structure Exact (t : Number) (s : Bytes) : Prop where
  valid_iff : (t.numberCast (some s)).vaild_ = true ↔
    HasNumber s ∧ t.min ≤ valueOf s ∧ valueOf s ≤ t.max
  value : (t.numberCast (some s)).vaild_ = true →
    t.cast (t.numberCast (some s)).value_ = valueOf s

/-! ## the two conversions -/

section
variable {t : Number} {s : Bytes}

theorem strtoimax_eq (s : Bytes) :
    strtoimax (cstr s) = (clampLong (valueOf s), (strto (cstr s)).end_) := rfl

theorem strtoumax_eq (s : Bytes) :
    strtoumax (cstr s) =
      (if 2 ^ 64 - 1 < (valueOf s).natAbs then 2 ^ 64 - 1
       else valueOf s % 2 ^ 64, (strto (cstr s)).end_) := by
  have habs : (valueOf s).natAbs = (strto (cstr s)).magnitude := by
    unfold valueOf
    split <;> omega
  rw [habs]
  unfold strtoumax valueOf
  simp only [Prod.mk.injEq, and_true]
  split
  · rfl
  · split
    · rfl
    · omega

theorem Number.bounds (t : Number) :
    (t.signed = true ∧ t.min = -(t.max + 1) ∧ (t.modulus : Int) = 2 * (t.max + 1) ∧
      0 ≤ t.max ∧ t.max ≤ 2 ^ 63 - 1) ∨
    (t.signed = false ∧ t.min = 0 ∧ (t.modulus : Int) = t.max + 1 ∧
      0 ≤ t.max ∧ t.max ≤ 2 ^ 64 - 1) := by
  cases t
  case int8 | int16 | int32 | long | longLong => exact Or.inl (by decide)
  case uint8 | uint16 | uint32 | unsignedLong | unsignedLongLong => exact Or.inr (by decide)

theorem Number.cast_of_range {n : Int} (h1 : t.min ≤ n) (h2 : n ≤ t.max) : t.cast n = n := by
  unfold Number.cast
  rcases t.bounds with ⟨hs, hmin, hm, hlo, hhi⟩ | ⟨hs, hmin, hm, hlo, hhi⟩
  · rw [if_pos hs, Int.bmod_eq_of_le (by omega) (by omega)]
  · rw [if_neg (by rw [hs]; exact Bool.false_ne_true), Int.emod_eq_of_lt (by omega) (by omega)]

theorem Number.castNumber_valid {strtomax : Bytes → Int × Nat} {v : Int} {end_ : Nat}
    (h : strtomax (cstr s) = (v, end_)) :
    ((t.castNumber strtomax (some s)).vaild_ = true ↔ end_ ≠ 0 ∧ t.min ≤ v ∧ v ≤ t.max) ∧
      ((t.castNumber strtomax (some s)).vaild_ = true →
        (t.castNumber strtomax (some s)).value_ = v) := by
  simp only [Number.castNumber, h]
  split_ifs with h1 h2 h3
  · simp [h1]
  · simp [h1]
    omega
  · simp [h1]
    omega
  · simp [h1]
    omega

/-- a type whose conversion gives `v` is exact if `v` is in range for the same texts as the number,
and is the number there -/
theorem exact_of_conversion {v : Int}
    (hv : ((t.numberCast (some s)).vaild_ = true ↔ HasNumber s ∧ t.min ≤ v ∧ v ≤ t.max) ∧
      ((t.numberCast (some s)).vaild_ = true → (t.numberCast (some s)).value_ = v)) :
    Exact t s ↔ (HasNumber s → t.min ≤ v → v ≤ t.max → v = valueOf s) ∧
      (HasNumber s → t.min ≤ valueOf s → valueOf s ≤ t.max → t.min ≤ v ∧ v ≤ t.max) := by
  obtain ⟨hvalid, hvalue⟩ := hv
  constructor
  · rintro ⟨h1, h2⟩
    refine ⟨fun hn ha hb => ?_, fun hn ha hb => (hvalid.mp (h1.mpr ⟨hn, ha, hb⟩)).2⟩
    have hok := hvalid.mpr ⟨hn, ha, hb⟩
    have hcast := h2 hok
    rwa [hvalue hok, Number.cast_of_range ha hb] at hcast
  · rintro ⟨h1, h2⟩
    refine ⟨hvalid.trans ⟨fun ⟨hn, ha, hb⟩ => ?_, fun ⟨hn, ha, hb⟩ => ⟨hn, h2 hn ha hb⟩⟩,
      fun hok => ?_⟩
    · rw [← h1 hn ha hb]
      exact ⟨hn, ha, hb⟩
    · obtain ⟨hn, ha, hb⟩ := hvalid.mp hok
      rw [hvalue hok, Number.cast_of_range ha hb, h1 hn ha hb]

/-- **`number_cast`.**  Valid are the numbers in the range of `T` and they come out as they are, except
for a number out of the range of a 64-bit type, and for a negative one whose value modulo 2^64 is in
the range of an unsigned type. -/
theorem exact_iff (t : Number) (s : Bytes) :
    Exact t s ↔ (HasNumber s →
      (t.modulus = 2 ^ 64 → t.min ≤ valueOf s ∧ valueOf s ≤ t.max) ∧
      (t.signed = false →
        ¬ (-2 ^ 64 < valueOf s ∧ valueOf s ≤ t.max - 2 ^ 64))) := by
  by_cases hn : HasNumber s
  swap
  · have hnone : ∀ f v, f (cstr s) = (v, (strto (cstr s)).end_) →
        (t.castNumber f (some s)).vaild_ ≠ true :=
      fun f v hf hok => hn ((Number.castNumber_valid hf).1.mp hok).1
    have hbad : (t.numberCast (some s)).vaild_ ≠ true := by
      unfold Number.numberCast
      split
      · exact hnone _ _ (strtoimax_eq s)
      · exact hnone _ _ (strtoumax_eq s)
    exact iff_of_true ⟨iff_of_false hbad fun h => hn h.1, fun h => absurd h hbad⟩
      fun h => absurd h hn
  rcases t.bounds with ⟨hs, hmin, hm, hlo, hhi⟩ | ⟨hs, hmin, hm, hlo, hhi⟩
  · have hcast : t.numberCast (some s) = t.castNumber strtoimax (some s) := by
      unfold Number.numberCast
      rw [if_pos hs]
    have hv := Number.castNumber_valid (t := t) (strtoimax_eq s)
    rw [← hcast] at hv
    rw [exact_of_conversion hv]
    simp only [hn, hs, forall_const, clampLong, Bool.true_eq_false, false_imp_iff, and_true]
    omega
  · have hcast : t.numberCast (some s) = t.castNumber strtoumax (some s) := by
      unfold Number.numberCast
      rw [if_neg (by rw [hs]; exact Bool.false_ne_true)]
    have hv := Number.castNumber_valid (t := t) (strtoumax_eq s)
    rw [← hcast] at hv
    rw [exact_of_conversion hv]
    simp only [hn, hs, forall_const]
    split_ifs <;> omega

/-- a value that saturates, and two that wrap around -/
theorem not_exact : ¬ Exact .long (ascii "9223372036854775808") ∧
    ¬ Exact .unsignedLong (ascii "-1") ∧ ¬ Exact .uint8 (ascii "-18446744073709551615") := by
  have h1 : (Number.long.numberCast (some (ascii "9223372036854775808"))).vaild_ = true := by
    decide +kernel
  have h2 : (Number.unsignedLong.numberCast (some (ascii "-1"))).vaild_ = true := by
    decide +kernel
  have h3 : (Number.uint8.numberCast (some (ascii "-18446744073709551615"))).vaild_ = true := by
    decide +kernel
  refine ⟨fun h => ?_, fun h => ?_, fun h => ?_⟩
  · exact absurd (h.valid_iff.mp h1).2.2 (by decide +kernel)
  · exact absurd (h.valid_iff.mp h2).2.1 (by decide +kernel)
  · exact absurd (h.valid_iff.mp h3).2.1 (by decide +kernel)

end

end StringCast
