import LearnDiary.Packer.Adler
import Mathlib.Data.List.Induction

/-!
# `adler32_combine` (comm/adler32.c)

The checksum of two pieces from the checksums of the pieces.  The last corrections compare with `>`:
a sum that is a multiple of `BASE` comes out as `BASE`, not as 0.

* `sums_shift`            what a start value adds to the sums;
* `adler32Combine_iff`    exactly when the result is the checksum of the concatenation.
-/

namespace Pack

/-- `if (sum > m) sum -= m` -/
def subOver (m sum : Nat) : Nat := if m < sum then sum - m else sum

/-- `unsigned long` does not wrap -/
def adler32Combine (adler1 adler2 len2 : Nat) : Nat :=
  let rem := len2 % BASE
  let sum1 := adler1 &&& 0xffff
  let sum2 := rem * sum1
  let sum2 := sum2 % BASE
  let sum1 := sum1 + ((adler2 &&& 0xffff) + BASE - 1)
  let sum2 := sum2 + (((adler1 >>> 16) &&& 0xffff) + ((adler2 >>> 16) &&& 0xffff) + BASE - rem)
  let sum1 := subOver BASE sum1
  let sum1 := subOver BASE sum1
  let sum2 := subOver (BASE <<< 1) sum2
  let sum2 := subOver BASE sum2
  sum1 ||| (sum2 <<< 16)

/-- a start value is added to the first sum, and once for every byte to the second -/
theorem sums_shift (a b : Nat) (buf : Bytes) :
    sums (a, b) buf =
      (a + (sums (0, 0) buf).1, b + buf.length * a + (sums (0, 0) buf).2) := by
  induction buf using List.reverseRecOn with
  | nil =>
    rw [List.length_nil, Nat.zero_mul]
    rfl
  | append_singleton buf c ih =>
    rw [sums_append, sums_append, ih]
    generalize sums (0, 0) buf = t
    rw [List.length_append, List.length_singleton, Nat.succ_mul]
    show (a + t.1 + c.toNat, b + buf.length * a + t.2 + (a + t.1 + c.toNat)) =
      (a + (t.1 + c.toNat), b + (buf.length * a + a) + (t.2 + (t.1 + c.toNat)))
    ext <;> omega

/-- the remainder of a sum below `3 * BASE`, but `BASE` instead of 0 -/
def overMod (n : Nat) : Nat := if n % BASE = 0 then BASE else n % BASE

theorem subOver_twice {n : Nat} (h0 : 0 < n) (h : n ≤ 3 * BASE) :
    subOver BASE (subOver BASE n) = overMod n := by
  unfold subOver overMod BASE at *
  split_ifs <;> omega

theorem subOver_double {n : Nat} (h0 : 0 < n) (h : n ≤ 4 * BASE) :
    subOver BASE (subOver (BASE <<< 1) n) = overMod n := by
  have e : BASE <<< 1 = 2 * BASE := rfl
  rw [e]
  unfold subOver overMod BASE at *
  split_ifs <;> omega

theorem combine_sums (s : Nat × Nat) (y : Bytes) :
    (s.1 + ((reduce (sums (1, 0) y)).1 + BASE - 1)) % BASE = (reduce (sums s y)).1 ∧
    (y.length % BASE * s.1 % BASE +
        (s.2 + (reduce (sums (1, 0) y)).2 + BASE - y.length % BASE)) % BASE =
      (reduce (sums s y)).2 := by
  obtain ⟨a, b⟩ := s
  rw [sums_shift a b, sums_shift 1 0]
  generalize sums (0, 0) y = t
  unfold reduce
  dsimp only
  constructor
  · unfold BASE
    omega
  · have hm : y.length % BASE * a % BASE = y.length * a % BASE := Nat.mod_mul_mod _ _ _
    have hlt : y.length % BASE < BASE := Nat.mod_lt _ (by decide)
    rw [hm]
    generalize y.length * a = na
    unfold BASE at *
    omega

theorem split_halves {a b : Nat} (ha : a < 2 ^ 16) (hb : b < 2 ^ 16) :
    split (combine (a, b)) = (a, b) := by
  have e : combine (a, b) = 2 ^ 16 * b + a := by
    show a ||| (b <<< 16) = _
    rw [Nat.or_comm, ← Nat.shiftLeft_add_eq_or_of_lt ha, Nat.shiftLeft_eq, Nat.mul_comm]
  have m (n : Nat) : n &&& 0xffff = n % 2 ^ 16 := Nat.and_two_pow_sub_one_eq_mod n 16
  unfold split
  rw [e, m, m, Nat.shiftRight_eq_div_pow]
  ext
  · show (2 ^ 16 * b + a) % 2 ^ 16 = a
    omega
  · show (2 ^ 16 * b + a) / 2 ^ 16 % 2 ^ 16 = b
    omega

def Valid (adler : Nat) : Prop := (split adler).1 < BASE ∧ (split adler).2 < BASE

instance (adler : Nat) : Decidable (Valid adler) := inferInstanceAs (Decidable (_ ∧ _))

theorem adler32Combine_split (a b n : Nat) :
    adler32Combine a b n =
      combine (subOver BASE (subOver BASE ((split a).1 + ((split b).1 + BASE - 1))),
        subOver BASE (subOver (BASE <<< 1) (n % BASE * (split a).1 % BASE +
          ((split a).2 + (split b).2 + BASE - n % BASE)))) := by
  simp only [adler32Combine, split, combine]

theorem adler32Combine_eq {adler : Nat} (h : Valid adler) (x y : Bytes) :
    adler32Combine (adler32 adler x) (adler32 1 y) y.length =
      combine (overMod (split (adler32 adler (x ++ y))).1,
        overMod (split (adler32 adler (x ++ y))).2) := by
  have h1 : Valid 1 := by decide
  have hx := split_adler32 adler x h
  have hy := split_adler32 1 y h1
  have hxy := split_adler32 adler (x ++ y) h
  rw [sums_append, ← reduce_sums_congr y (reduce_reduce _), ← hx] at hxy
  have hs : Valid (adler32 adler x) := by
    rw [Valid, hx]
    exact reduce_lt _
  have ht : Valid (adler32 1 y) := by
    rw [Valid, hy]
    exact reduce_lt _
  have hsum := combine_sums (split (adler32 adler x)) y
  have e1 : split 1 = (1, 0) := rfl
  rw [← e1, ← hy, ← hxy] at hsum
  have hrem : y.length % BASE < BASE := Nat.mod_lt _ (by decide)
  have hmul : y.length % BASE * (split (adler32 adler x)).1 % BASE < BASE :=
    Nat.mod_lt _ (by decide)
  have hB : 1 < BASE := by decide
  obtain ⟨hs1, hs2⟩ := hs
  obtain ⟨ht1, ht2⟩ := ht
  have hres (n : Nat) : overMod (n % BASE) = overMod n := by
    unfold overMod
    rw [Nat.mod_mod]
  rw [← hsum.1, ← hsum.2, hres, hres, ← subOver_twice (by omega) (by omega),
    ← subOver_double (by omega) (by omega), adler32Combine_split]

theorem overMod_eq {n : Nat} (h : n < BASE) : overMod n = if n = 0 then BASE else n := by
  unfold overMod
  rw [Nat.mod_eq_of_lt h]

/-- **the combined checksum is the checksum of the two pieces in a row** exactly when neither of its
sums is 0 -/
theorem adler32Combine_iff {adler : Nat} (h : Valid adler) (x y : Bytes) :
    adler32Combine (adler32 adler x) (adler32 1 y) y.length = adler32 adler (x ++ y) ↔
      (split (adler32 adler (x ++ y))).1 ≠ 0 ∧ (split (adler32 adler (x ++ y))).2 ≠ 0 := by
  have hr := split_adler32 adler (x ++ y) h
  have hlt := reduce_lt (sums (split adler) (x ++ y))
  have he : adler32 adler (x ++ y) = combine (split (adler32 adler (x ++ y))) := by
    rw [hr]
    exact adler32_eq adler (x ++ y) h
  rw [adler32Combine_eq h]
  rw [← hr] at hlt
  generalize hs : split (adler32 adler (x ++ y)) = s at *
  obtain ⟨a, b⟩ := s
  rw [he, overMod_eq hlt.1, overMod_eq hlt.2]
  have hB : BASE < 2 ^ 16 := by decide
  constructor
  · intro hc
    have hcs := congrArg split hc
    rw [split_halves (by split <;> omega) (by split <;> omega), split_combine hlt] at hcs
    obtain ⟨ha, hb⟩ := Prod.mk.inj hcs
    constructor
    · intro h0
      rw [if_pos h0] at ha
      omega
    · intro h0
      rw [if_pos h0] at hb
      omega
  · rintro ⟨ha, hb⟩
    rw [if_neg ha, if_neg hb]

/-- "a" and "b", after the usual start -/
theorem adler32Combine_iff_ab :
    adler32Combine (adler32 1 [97]) (adler32 1 [98]) 1 = adler32 1 [97, 98] ↔
      (split (adler32 1 [97, 98])).1 ≠ 0 ∧ (split (adler32 1 [97, 98])).2 ≠ 0 :=
  adler32Combine_iff (by decide) [97] [98]

end Pack
