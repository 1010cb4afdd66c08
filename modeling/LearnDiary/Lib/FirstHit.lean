import Mathlib.Data.Nat.Basic

/-!
# The first hit of a scan

`FirstHit P lo hi r` says that `r` is the first number from `lo` on and below `hi` with `P`, `none`
when there is none.  A scan that goes up one by one gets there by `stop`, `hit` and `skip`; two scans
over the same range agree by `unique`.
-/

/-- `r` is the first number of the range with `P` -/
def FirstHit (P : Nat → Prop) (lo hi : Nat) : Option Nat → Prop
  | some i => lo ≤ i ∧ i < hi ∧ P i ∧ ∀ j, lo ≤ j → j < i → ¬ P j
  | none => ∀ j, lo ≤ j → j < hi → ¬ P j

namespace FirstHit
variable {P : Nat → Prop} {lo hi : Nat} {r r' : Option Nat}

theorem stop (h : hi ≤ lo) : FirstHit P lo hi none := fun j h1 h2 => by omega

theorem hit (h : lo < hi) (hP : P lo) : FirstHit P lo hi (some lo) :=
  ⟨Nat.le_refl lo, h, hP, fun j h1 h2 => by omega⟩

theorem skip (hP : ¬ P lo) (h : FirstHit P (lo + 1) hi r) : FirstHit P lo hi r := by
  cases r with
  | none =>
    intro j h1 h2
    rcases Nat.eq_or_lt_of_le h1 with rfl | h1
    · exact hP
    · exact h j h1 h2
  | some i =>
    obtain ⟨h1, h2, h3, h4⟩ := h
    refine ⟨by omega, h2, h3, fun j hj hji => ?_⟩
    rcases Nat.eq_or_lt_of_le hj with rfl | hj
    · exact hP
    · exact h4 j hj hji

theorem unique (h : FirstHit P lo hi r) (h' : FirstHit P lo hi r') : r = r' := by
  cases r with
  | none =>
    cases r' with
    | none => rfl
    | some i => exact absurd h'.2.2.1 (h i h'.1 h'.2.1)
  | some i =>
    cases r' with
    | none => exact absurd h.2.2.1 (h' i h.1 h.2.1)
    | some j =>
      obtain ⟨h1, h2, h3, h4⟩ := h
      obtain ⟨h1', h2', h3', h4'⟩ := h'
      rcases Nat.lt_trichotomy i j with hlt | rfl | hlt
      · exact absurd h3 (h4' i h1 hlt)
      · rfl
      · exact absurd h3' (h4 j h1' hlt)

end FirstHit
