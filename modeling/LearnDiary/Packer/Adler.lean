import Mathlib.Data.Nat.ModEq
import LearnDiary.Base.Bytes

/-!
# `adler32` (comm/adler32.c)

The two running sums, the three length cases of the source (one byte, fewer than 16, blocks of
`NMAX` bytes with one reduction each) and `adler32_append`: the checksum is a streaming one.
`unsigned long` does not wrap: `NMAX` is chosen so.
-/

set_option linter.unusedSectionVars false

namespace Pack

def BASE : Nat := 65521
def NMAX : Nat := 5552

/-- `DO1`: `adler += buf[i]; sum2 += adler` -/
def do1 (s : Nat × Nat) (c : UInt8) : Nat × Nat := (s.1 + c.toNat, s.2 + (s.1 + c.toNat))

def sums (s : Nat × Nat) (buf : Bytes) : Nat × Nat := buf.foldl do1 s

/-- `MOD(adler); MOD(sum2)` -/
def reduce (s : Nat × Nat) : Nat × Nat := (s.1 % BASE, s.2 % BASE)

/-- `adler | (sum2 << 16)` -/
def combine (s : Nat × Nat) : Nat := s.1 ||| (s.2 <<< 16)

/-- the blocks of `NMAX` bytes, then the remaining bytes -/
def blocks (s : Nat × Nat) (buf : Bytes) : Nat × Nat :=
  if NMAX ≤ buf.length then blocks (reduce (sums s (buf.take NMAX))) (buf.drop NMAX)
  else if buf = [] then s else reduce (sums s buf)
termination_by buf.length
decreasing_by
  rw [List.length_drop]
  unfold NMAX at *
  omega

/-- one conditional subtraction instead of a division -/
def subBase (n : Nat) : Nat := if BASE ≤ n then n - BASE else n

def adler32 (adler : Nat) (buf : Bytes) : Nat :=
  let s := (adler &&& 0xffff, (adler >>> 16) &&& 0xffff)
  match buf with
  | [c] =>
    let a := subBase (s.1 + c.toNat)
    combine (a, subBase (s.2 + a))
  | _ =>
    if buf.length < 16 then
      let t := sums s buf
      combine (subBase t.1, t.2 % BASE)
    else combine (blocks s buf)

/-! ## all cases compute the sums modulo `BASE` -/

theorem sums_append (s : Nat × Nat) (a b : Bytes) : sums s (a ++ b) = sums (sums s a) b :=
  List.foldl_append

theorem reduce_lt (s : Nat × Nat) : (reduce s).1 < BASE ∧ (reduce s).2 < BASE :=
  ⟨Nat.mod_lt _ (by decide), Nat.mod_lt _ (by decide)⟩

theorem reduce_of_lt {s : Nat × Nat} (h : s.1 < BASE ∧ s.2 < BASE) : reduce s = s := by
  unfold reduce
  rw [Nat.mod_eq_of_lt h.1, Nat.mod_eq_of_lt h.2]

theorem reduce_sums_congr (buf : Bytes) {s t : Nat × Nat} (h : reduce s = reduce t) :
    reduce (sums s buf) = reduce (sums t buf) := by
  induction buf generalizing s t with
  | nil => exact h
  | cons c buf ih =>
    have h1 : s.1 ≡ t.1 [MOD BASE] := congrArg Prod.fst h
    have h2 : s.2 ≡ t.2 [MOD BASE] := congrArg Prod.snd h
    refine ih (Prod.ext ?_ ?_)
    · exact h1.add_right _
    · exact h2.add (h1.add_right _)

theorem reduce_reduce (s : Nat × Nat) : reduce (reduce s) = reduce s :=
  reduce_of_lt (reduce_lt s)

theorem blocks_eq (s : Nat × Nat) (buf : Bytes) (h : s.1 < BASE ∧ s.2 < BASE) :
    blocks s buf = reduce (sums s buf) := by
  induction hn : buf.length using Nat.strong_induction_on generalizing s buf with
  | _ n ih =>
    rw [blocks]
    split
    · rename_i hle
      have hlt : (buf.drop NMAX).length < n := by
        rw [List.length_drop]
        unfold NMAX at *
        omega
      rw [ih _ hlt _ _ (reduce_lt _) rfl, reduce_sums_congr _ (reduce_reduce _), ← sums_append,
        List.take_append_drop]
    · split
      · rename_i e
        rw [e]
        exact (reduce_of_lt h).symm
      · rfl

theorem subBase_eq {n : Nat} (h : n < 2 * BASE) : subBase n = n % BASE := by
  unfold subBase
  unfold BASE at *
  split <;> omega

theorem sums_fst (s : Nat × Nat) (buf : Bytes) : (sums s buf).1 ≤ s.1 + 255 * buf.length := by
  induction buf generalizing s with
  | nil => exact Nat.le_refl _
  | cons c buf ih =>
    have h1 := ih (do1 s c)
    have h2 : c.toNat ≤ 255 := Nat.le_of_lt_succ c.toNat_lt
    have h3 : (do1 s c).1 = s.1 + c.toNat := rfl
    show (sums (do1 s c) buf).1 ≤ _
    rw [List.length_cons]
    omega

/-- the state a checksum value stands for -/
def split (adler : Nat) : Nat × Nat := (adler &&& 0xffff, (adler >>> 16) &&& 0xffff)

theorem split_combine {s : Nat × Nat} (h : s.1 < BASE ∧ s.2 < BASE) : split (combine s) = s := by
  obtain ⟨a, b⟩ := s
  obtain ⟨ha, hb⟩ := h
  have ha' : a < 2 ^ 16 := Nat.lt_trans ha (by decide)
  have hb' : b < 2 ^ 16 := Nat.lt_trans hb (by decide)
  have e : combine (a, b) = 2 ^ 16 * b + a := by
    show a ||| (b <<< 16) = _
    rw [Nat.or_comm, ← Nat.shiftLeft_add_eq_or_of_lt ha', Nat.shiftLeft_eq, Nat.mul_comm]
  unfold split
  rw [e]
  have m (n : Nat) : n &&& 0xffff = n % 2 ^ 16 := Nat.and_two_pow_sub_one_eq_mod n 16
  rw [m, m, Nat.shiftRight_eq_div_pow]
  ext
  · show (2 ^ 16 * b + a) % 2 ^ 16 = a
    omega
  · show (2 ^ 16 * b + a) / 2 ^ 16 % 2 ^ 16 = b
    omega

theorem adler32_eq (adler : Nat) (buf : Bytes)
    (h : (split adler).1 < BASE ∧ (split adler).2 < BASE) :
    adler32 adler buf = combine (reduce (sums (split adler) buf)) := by
  have hs : (adler &&& 0xffff, (adler >>> 16) &&& 0xffff) = split adler := rfl
  unfold adler32
  rw [hs]
  generalize split adler = s at h
  obtain ⟨h1, h2⟩ := h
  simp only
  split
  · rename_i c
    have hc : c.toNat ≤ 255 := Nat.le_of_lt_succ c.toNat_lt
    have e1 : subBase (s.1 + c.toNat) = (s.1 + c.toNat) % BASE :=
      subBase_eq (by unfold BASE at *; omega)
    have hlt : (s.1 + c.toNat) % BASE < BASE := Nat.mod_lt _ (by decide)
    rw [e1, subBase_eq (by omega), Nat.add_mod_mod]
    rfl
  · split
    · rename_i hlen
      have hf := sums_fst s buf
      rw [subBase_eq (by unfold BASE at *; omega)]
      rfl
    · rw [blocks_eq s buf ⟨h1, h2⟩]

theorem split_adler32 (adler : Nat) (buf : Bytes)
    (h : (split adler).1 < BASE ∧ (split adler).2 < BASE) :
    split (adler32 adler buf) = reduce (sums (split adler) buf) := by
  rw [adler32_eq adler buf h, split_combine (reduce_lt _)]

/-- **The checksum is a streaming one.** -/
theorem adler32_append (a b : Bytes) : adler32 (adler32 0 a) b = adler32 0 (a ++ b) := by
  have h0 : (split 0).1 < BASE ∧ (split 0).2 < BASE := by decide
  have h1 := split_adler32 0 a h0
  have h2 : (split (adler32 0 a)).1 < BASE ∧ (split (adler32 0 a)).2 < BASE := by
    rw [h1]
    exact reduce_lt _
  rw [adler32_eq _ b h2, h1, adler32_eq 0 (a ++ b) h0, sums_append,
    reduce_sums_congr b (reduce_reduce _)]

theorem combine_lt {s : Nat × Nat} (h : s.1 < BASE ∧ s.2 < BASE) : combine s < 2 ^ 32 := by
  refine Nat.or_lt_two_pow (Nat.lt_trans h.1 (by decide)) ?_
  have h2 : s.2 < 2 ^ 16 := Nat.lt_trans h.2 (by decide)
  rw [Nat.shiftLeft_eq]
  omega

theorem adler32_lt (buf : Bytes) : adler32 0 buf < 2 ^ 32 := by
  rw [adler32_eq 0 buf (by decide)]
  exact combine_lt (reduce_lt _)

end Pack
