import Mathlib.Data.List.Basic

/-!
# Histories

A history is a list of events with the newest one first.  Events of a kind often carry a number
that grows from one to the next; then the order of the numbers is the order of the events.

* `Earlier`          one event stands before another;
* `earlier_iff_lt`   for two events with numbers;
* `Each`             every event fits the history it came in with.
-/

namespace History
variable {ε : Type*}

/-- `e` comes before `e'` in the history -/
def Earlier (e e' : ε) (log : List ε) : Prop := ∃ l₁ l₂, log = l₁ ++ e' :: l₂ ∧ e ∈ l₂

theorem grown {es es' log log' : List ε} (h : log' = es ++ log) (h' : log' = es' ++ log) :
    es = es' := by
  rw [h] at h'
  exact List.append_cancel_right h'

theorem Earlier.mem_left {e e' : ε} {log : List ε} (h : Earlier e e' log) : e ∈ log := by
  obtain ⟨l₁, l₂, rfl, he⟩ := h
  exact List.mem_append_right _ (List.mem_cons_of_mem _ he)

theorem Earlier.cons {e e' : ε} {log : List ε} (x : ε) (h : Earlier e e' log) :
    Earlier e e' (x :: log) := by
  obtain ⟨l₁, l₂, rfl, he⟩ := h
  exact ⟨x :: l₁, l₂, rfl, he⟩

theorem earlier_append {e e' : ε} {l log : List ε} (h : Earlier e e' (l ++ log)) :
    Earlier e e' log ∨ e' ∈ l ∧ e ∈ l ++ log := by
  induction l with
  | nil => exact Or.inl h
  | cons x l ih =>
    obtain ⟨l₁, l₂, hl, he⟩ := h
    cases l₁ with
    | nil =>
      obtain ⟨rfl, rfl⟩ := List.cons.inj hl
      exact Or.inr ⟨List.mem_cons_self, List.mem_cons_of_mem _ he⟩
    | cons y l₁ =>
      obtain ⟨rfl, htail⟩ := List.cons.inj hl
      rcases ih ⟨l₁, l₂, htail, he⟩ with h | ⟨h1, h2⟩
      · exact Or.inl h
      · exact Or.inr ⟨List.mem_cons_of_mem _ h1, List.mem_cons_of_mem _ h2⟩

section
variable {f : ε → Option Nat} {log : List ε} {e e' : ε} {a b : Nat}

/-- **The numbers of a history that grows tell the order of its events.** -/
theorem earlier_iff_lt (hl : (log.filterMap f).Pairwise (fun x y => y < x)) (he : f e = some a)
    (he' : f e' = some b) (hm : e ∈ log) (hm' : e' ∈ log) : Earlier e e' log ↔ a < b := by
  induction log with
  | nil => cases hm
  | cons x log ih =>
    have htail : (log.filterMap f).Pairwise (fun x y => y < x) :=
      hl.sublist ((List.sublist_cons_self x log).filterMap f)
    have hhead : ∀ c, f x = some c → ∀ d ∈ log.filterMap f, d < c := by
      intro c hc
      rw [List.filterMap_cons_some hc] at hl
      exact (List.pairwise_cons.mp hl).1
    constructor
    · rintro ⟨l₁, l₂, hsplit, hin⟩
      cases l₁ with
      | nil =>
        cases hsplit
        exact hhead b he' a (List.mem_filterMap.mpr ⟨e, hin, he⟩)
      | cons y l₁ =>
        cases hsplit
        have hin' : e ∈ l₁ ++ e' :: l₂ := List.mem_append_right _ (List.mem_cons_of_mem _ hin)
        have hin'' : e' ∈ l₁ ++ e' :: l₂ := List.mem_append_right _ List.mem_cons_self
        exact (ih htail hin' hin'').mp ⟨l₁, l₂, rfl, hin⟩
    · intro hab
      rcases List.mem_cons.mp hm with rfl | hin
      · -- the newest event has the largest number
        rcases List.mem_cons.mp hm' with rfl | hin'
        · rw [he] at he'
          cases he'
          exact absurd hab (Nat.lt_irrefl _)
        · have := hhead a he b (List.mem_filterMap.mpr ⟨e', hin', he'⟩)
          omega
      · rcases List.mem_cons.mp hm' with rfl | hin'
        · exact ⟨[], log, rfl, hin⟩
        · exact ((ih htail hin hin').mpr hab).cons x

end

/-! ## a condition on every event and what lies before it -/

/-- `P` holds of every event and the history before it -/
def Each (P : ε → List ε → Prop) : List ε → Prop
  | [] => True
  | e :: log => P e log ∧ Each P log

section
variable {P : ε → List ε → Prop} {e : ε} {log l₁ l₂ : List ε}

theorem Each.right (h : Each P (l₁ ++ l₂)) : Each P l₂ := by
  induction l₁ with
  | nil => exact h
  | cons x l ih => exact ih h.2

theorem Each.at (h : Each P log) (hl : log = l₁ ++ e :: l₂) : P e l₂ := by
  subst hl
  exact h.right.1

/-- what comes in at most once, as no event comes in with the same one before it -/
theorem Each.count_le [DecidableEq ε] (h : Each P log) (hP : ∀ l, Each P l → P e l → e ∉ l) :
    log.count e ≤ 1 := by
  induction log with
  | nil => exact Nat.zero_le 1
  | cons x log ih =>
    by_cases hx : x = e
    · subst hx
      have hno := List.count_eq_zero.mpr (hP log h.2 h.1)
      rw [List.count_cons_self]
      omega
    · rw [List.count_cons_of_ne hx]
      exact ih h.2

end

end History
