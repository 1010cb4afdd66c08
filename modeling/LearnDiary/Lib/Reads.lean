import Mathlib.Data.List.Basic

/-!
# Programs that read a memory, and what they read

A program over a memory keeps the list of the ranges it reads.  `Within len m b` says that `m`
computes `b` and reads below `len` only; it has one rule for each way to build a program.
-/

namespace Reads

/-- a range: its first index and its length -/
abbrev Range := Nat × Nat

abbrev Reader := StateM (List Range)

section
variable {α β γ : Type}

/-- the `n` cells from `off` on -/
def cells (mem : Nat → α) (off n : Nat) : List α := (List.range n).map fun i => mem (off + i)

theorem cells_length (mem : Nat → α) (off n : Nat) : (cells mem off n).length = n := by
  unfold cells
  rw [List.length_map, List.length_range]

theorem cells_getElem (mem : Nat → α) (off n i : Nat) (h : i < (cells mem off n).length) :
    (cells mem off n)[i] = mem (off + i) := by
  simp only [cells, List.getElem_map, List.getElem_range]

theorem cells_eq (mem : Nat → α) {off n len : Nat} (h : off + n ≤ len) :
    cells mem off n = ((cells mem 0 len).drop off).take n := by
  apply List.ext_getElem
  · rw [List.length_take, List.length_drop, cells_length, cells_length]
    omega
  · intro i h1 h2
    rw [List.getElem_take, List.getElem_drop, cells_getElem, cells_getElem, Nat.zero_add]

/-- a read of `n` cells from `off` on -/
def read (mem : Nat → α) (off n : Nat) : Reader (List α) := fun log =>
  (cells mem off n, log ++ [(off, n)])

def inside (len : Nat) (r : Range) : Prop := r.1 + r.2 ≤ len

/-- the program computes `b` and reads below `len` only -/
def Within (len : Nat) (m : Reader β) (b : β) : Prop :=
  ∀ log, ∃ more, m log = (b, log ++ more) ∧ ∀ r ∈ more, inside len r

theorem Within.pure (len : Nat) (b : β) : Within len (Pure.pure b) b := by
  intro log
  refine ⟨[], ?_, fun r hr => absurd hr List.not_mem_nil⟩
  rw [List.append_nil]
  rfl

theorem Within.read (mem : Nat → α) {off n len : Nat} (h : off + n ≤ len) :
    Within len (read mem off n) (((cells mem 0 len).drop off).take n) := by
  intro log
  refine ⟨[(off, n)], ?_, ?_⟩
  · rw [← cells_eq mem h]
    rfl
  · intro r hr
    rw [List.mem_singleton.mp hr]
    exact h

theorem Within.bind {len : Nat} {m : Reader β} {f : β → Reader γ} {b : β} {c : γ}
    (hm : Within len m b) (hf : Within len (f b) c) : Within len (m >>= f) c := by
  intro log
  obtain ⟨l1, e1, h1⟩ := hm log
  obtain ⟨l2, e2, h2⟩ := hf (log ++ l1)
  refine ⟨l1 ++ l2, ?_, ?_⟩
  · show f (m log).1 (m log).2 = _
    rw [e1, e2, List.append_assoc]
  · intro r hr
    rcases List.mem_append.mp hr with h | h
    · exact h1 r h
    · exact h2 r h

theorem Within.ite {len : Nat} {c : Prop} [Decidable c] {m m' : Reader β} {b b' : β}
    (h : c → Within len m b) (h' : ¬ c → Within len m' b') :
    Within len (if c then m else m') (if c then b else b') := by
  split
  · rename_i hc
    exact h hc
  · rename_i hc
    exact h' hc

/-- the result of a program that is run from an empty list of reads, and the reads -/
theorem Within.run {len : Nat} {m : Reader β} {b : β} (h : Within len m b) :
    (m []).1 = b ∧ ∀ r ∈ (m []).2, inside len r := by
  obtain ⟨more, e, hr⟩ := h []
  rw [e]
  exact ⟨rfl, hr⟩

end

end Reads
