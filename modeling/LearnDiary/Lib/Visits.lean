import LearnDiary.Lib.Runs

/-!
# Points a schedule passes in order

A point is a property of a step: of the state it is taken in and of the action.  `Visits step Ps s l`
says that the schedule `l` from `s` passes steps with the properties `Ps`, in this order and with
any steps between.

* `Visits.append`, `Visits.snoc`  a longer schedule passes no fewer points;
* `exec_visits`   the rule: a state tells which points lie behind it.
-/

namespace Runs
variable {σ α : Type*}

def Visits (step : σ → α → Option σ) : List (σ → α → Prop) → σ → List α → Prop
  | [], _, _ => True
  | _ :: _, _, [] => False
  | P :: Ps, s, a :: l => ∃ t, step s a = some t ∧
      ((P s a ∧ Visits step Ps t l) ∨ Visits step (P :: Ps) t l)

variable {step : σ → α → Option σ} {s t u : σ} {a : α} {l : List α} {Ps : List (σ → α → Prop)}
  {P : σ → α → Prop}

theorem Visits.append (h : Visits step Ps s l) (l' : List α) : Visits step Ps s (l ++ l') := by
  induction l generalizing s Ps with
  | nil =>
    cases Ps with
    | nil =>
      unfold Visits
      trivial
    | cons P Ps => exact h.elim
  | cons a l ih =>
    cases Ps with
    | nil => trivial
    | cons P Ps =>
      obtain ⟨t, ht, h⟩ := h
      refine ⟨t, ht, ?_⟩
      rcases h with ⟨hP, h⟩ | h
      · exact Or.inl ⟨hP, ih h⟩
      · exact Or.inr (ih h)

theorem Visits.snoc (h : Visits step Ps s l) (ht : exec step s l = some t) (hP : P t a)
    (hu : step t a = some u) : Visits step (Ps ++ [P]) s (l ++ [a]) := by
  induction l generalizing s Ps with
  | nil =>
    cases ht
    cases Ps with
    | nil =>
      refine ⟨u, hu, Or.inl ⟨hP, ?_⟩⟩
      unfold Visits
      trivial
    | cons P Ps => exact h.elim
  | cons b l ih =>
    obtain ⟨v, hv, ht⟩ := Option.bind_eq_some_iff.mp ht
    cases Ps with
    | nil =>
      refine ⟨v, hv, Or.inr ?_⟩
      have hnil : Visits step [] v l := by
        unfold Visits
        trivial
      exact ih hnil ht
    | cons Q Ps =>
      obtain ⟨w, hw, h⟩ := h
      rw [hv] at hw
      cases hw
      refine ⟨v, hv, ?_⟩
      rcases h with ⟨hQ, h⟩ | h
      · exact Or.inl ⟨hQ, ih h ht⟩
      · exact Or.inr (ih h ht)

/-- **The rule**: where `W s Ps` says that the points `Ps` may lie behind the state `s`, and every
step leaves them there, adds the point it is, or forgets them all, they do. -/
theorem exec_visits {W : σ → List (σ → α → Prop) → Prop} (h0 : W s [])
    (hW : ∀ t a u Ps, step t a = some u → W t Ps →
      W u [] ∨ W u Ps ∨ ∃ P : σ → α → Prop, P t a ∧ W u (Ps ++ [P]))
    (h : exec step s l = some t) : ∃ Ps, W t Ps ∧ Visits step Ps s l := by
  have hall : exec step s l = some t ∧ ∃ Ps, W t Ps ∧ Visits step Ps s l := by
    refine exec_keep (P := fun l t => exec step s l = some t ∧ ∃ Ps, W t Ps ∧ Visits step Ps s l)
      ?_ ⟨rfl, [], h0, ?_⟩ h
    · rintro l t a u ⟨ht, Ps, hPs, hv⟩ hu
      have hl : exec step s (l ++ [a]) = some u := by
        rw [exec_append, ht]
        show (step t a).bind _ = some u
        rw [hu]
        rfl
      refine ⟨hl, ?_⟩
      rcases hW t a u Ps hu hPs with hw | hw | ⟨P, hP, hw⟩
      · refine ⟨[], hw, ?_⟩
        cases l <;> trivial
      · exact ⟨Ps, hw, hv.append [a]⟩
      · exact ⟨Ps ++ [P], hw, hv.snoc ht hP hu⟩
    · unfold Visits
      trivial
  exact hall.2

end Runs
