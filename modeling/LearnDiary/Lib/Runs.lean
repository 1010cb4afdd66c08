import Mathlib.Logic.Relation
import Mathlib.Data.List.Basic

/-!
# Runs of a machine under conditions on its steps

`step s a` is `none` where the action `a` is not possible.  `Run step C s s'` is a run all of whose
steps meet the condition `C` on the action and the state it is taken in; `fun _ _ => True` gives
every run.

* `Run.keep`      what every step keeps holds along a run;
* `Run.split`     where a property appears along a run, there is the step that brings it;
* `Run.of_exec`   a schedule that executes is a run;
* `Run.of_checked`  a schedule whose conditions are computed is a run under them;
* `exec_split`    `Run.split` for a schedule;
* `exec_each_iff`  two properties of an action that an invariant makes equivalent, along a schedule.
-/

namespace Runs
variable {σ α : Type*}

section
variable (step : σ → α → Option σ)

def Next (C : σ → α → Prop) (s s' : σ) : Prop := ∃ a, C s a ∧ step s a = some s'

abbrev Run (C : σ → α → Prop) : σ → σ → Prop := Relation.ReflTransGen (Next step C)

abbrev AnyRun : σ → σ → Prop := Run step (fun _ _ => True)

/-- the schedule `l`, action after action -/
def exec : σ → List α → Option σ
  | s, [] => some s
  | s, a :: l => (step s a).bind (exec · l)

end

variable {step : σ → α → Option σ} {C D : σ → α → Prop} {s s' : σ}

theorem Run.one {a : α} (hc : C s a) (h : step s a = some s') : Run step C s s' :=
  Relation.ReflTransGen.single ⟨a, hc, h⟩

theorem Run.mono (hCD : ∀ s a, C s a → D s a) (h : Run step C s s') : Run step D s s' := by
  refine Relation.ReflTransGen.mono ?_ _ _ h
  rintro s s' ⟨a, hc, hs⟩
  exact ⟨a, hCD s a hc, hs⟩

theorem Run.any (h : Run step C s s') : AnyRun step s s' := h.mono (fun _ _ _ => trivial)

/-- **The invariant rule**: what every step under the condition keeps holds along the run. -/
theorem Run.keep {P : σ → Prop} (h : Run step C s s')
    (hP : ∀ s a s', P s → C s a → step s a = some s' → P s') (hs : P s) : P s' := by
  induction h with
  | refl => exact hs
  | tail _ hn ih =>
    obtain ⟨a, hc, ha⟩ := hn
    exact hP _ a _ ih hc ha

/-- a property that holds at the end and not at the start comes in with one of the steps -/
theorem Run.split {P : σ → Prop} (h : Run step C s s') (hs : ¬ P s) (hs' : P s') :
    ∃ t a t', Run step C s t ∧ C t a ∧ step t a = some t' ∧ Run step C t' s' ∧ ¬ P t ∧ P t' := by
  induction h with
  | refl => exact absurd hs' hs
  | @tail b c hr hn ih =>
    by_cases hb : P b
    · obtain ⟨t, a, t', h1, hc, h2, h3, h4, h5⟩ := ih hb
      exact ⟨t, a, t', h1, hc, h2, h3.tail hn, h4, h5⟩
    · obtain ⟨a, hc, ha⟩ := hn
      exact ⟨b, a, c, hr, hc, ha, Relation.ReflTransGen.refl, hb, hs'⟩

theorem Run.of_exec_all {l : List α} (h : exec step s l = some s') (hC : ∀ a ∈ l, ∀ t, C t a) :
    Run step C s s' := by
  induction l generalizing s with
  | nil =>
    cases h
    exact Relation.ReflTransGen.refl
  | cons a l ih =>
    obtain ⟨t, ht, hl⟩ := Option.bind_eq_some_iff.mp h
    have hrest := ih hl (fun b hb => hC b (List.mem_cons_of_mem _ hb))
    exact Relation.ReflTransGen.head ⟨a, hC a List.mem_cons_self s, ht⟩ hrest

theorem Run.of_exec {l : List α} (h : exec step s l = some s') : AnyRun step s s' :=
  Run.of_exec_all h (fun _ _ _ => trivial)

theorem exec_append (l₁ l₂ : List α) :
    exec step s (l₁ ++ l₂) = (exec step s l₁).bind (exec step · l₂) := by
  induction l₁ generalizing s with
  | nil => rfl
  | cons a l ih =>
    show (step s a).bind _ = ((step s a).bind _).bind _
    rw [Option.bind_assoc]
    congr 1
    funext t
    exact ih

/-- what holds of the empty schedule and is kept by one action more holds of all -/
theorem exec_keep {P : List α → σ → Prop} (hP : ∀ l t a t', P l t → step t a = some t' → P (l ++ [a]) t')
    (h0 : P [] s) {l : List α} (h : exec step s l = some s') : P l s' := by
  have hgen : ∀ k l t, P k t → exec step t l = some s' → P (k ++ l) s' := by
    intro k l t hk hl
    induction l generalizing k t with
    | nil =>
      cases hl
      rw [List.append_nil]
      exact hk
    | cons a l ih =>
      obtain ⟨t', ht, hl⟩ := Option.bind_eq_some_iff.mp hl
      have := ih (k ++ [a]) t' (hP k t a t' hk ht) hl
      rwa [List.append_assoc] at this
  exact hgen [] l s h0 h

theorem exec_range {step : σ → Nat → Option σ} {P : Nat → σ → Prop} {n : Nat}
    (hP : ∀ k < n, ∀ t t', P k t → step t k = some t' → P (k + 1) t') (h0 : P 0 s)
    (h : exec step s (List.range n) = some s') : P n s' := by
  induction n generalizing s' with
  | zero =>
    cases h
    exact h0
  | succ n ih =>
    rw [List.range_succ, exec_append] at h
    obtain ⟨t, ht, h⟩ := Option.bind_eq_some_iff.mp h
    obtain ⟨t', ht', h⟩ := Option.bind_eq_some_iff.mp h
    cases h
    exact hP n (Nat.lt_succ_self n) t s' (ih (fun k hk => hP k (Nat.lt_succ_of_lt hk)) ht) ht'

theorem exec_cons_some {l₁ l₂ : List α} {a : α} (h : exec step s (l₁ ++ a :: l₂) = some s') :
    ∃ t t', exec step s l₁ = some t ∧ step t a = some t' ∧ exec step t' l₂ = some s' := by
  rw [exec_append] at h
  obtain ⟨t, ht, h⟩ := Option.bind_eq_some_iff.mp h
  obtain ⟨t', ht', h⟩ := Option.bind_eq_some_iff.mp h
  exact ⟨t, t', ht, ht', h⟩

/-- a schedule all of whose actions meet the condition where they are taken is a run -/
theorem Run.of_exec_at {l : List α} (h : exec step s l = some s')
    (hC : ∀ l₁ a l₂ t, l = l₁ ++ a :: l₂ → exec step s l₁ = some t → C t a) : Run step C s s' := by
  induction l generalizing s with
  | nil =>
    cases h
    exact Relation.ReflTransGen.refl
  | cons a l ih =>
    obtain ⟨t, ht, hl⟩ := Option.bind_eq_some_iff.mp h
    refine Relation.ReflTransGen.head ⟨a, hC [] a l s rfl rfl, ht⟩ (ih hl ?_)
    intro l₁ b l₂ u hlu hu
    refine hC (a :: l₁) b l₂ u (by rw [hlu]; rfl) ?_
    show (step s a).bind _ = some u
    rw [ht]
    exact hu

/-- a schedule whose actions meet the condition where they are taken, by a computation -/
def checked (step : σ → α → Option σ) (C : σ → α → Prop) [∀ s a, Decidable (C s a)] :
    σ → List α → Option σ
  | s, [] => some s
  | s, a :: l => if C s a then (step s a).bind (checked step C · l) else none

theorem Run.of_checked [∀ s a, Decidable (C s a)] {l : List α} {f : σ → Bool}
    (h : (checked step C s l).any f = true) : ∃ s', Run step C s s' ∧ f s' = true := by
  induction l generalizing s with
  | nil => exact ⟨s, Relation.ReflTransGen.refl, h⟩
  | cons a l ih =>
    unfold checked at h
    split at h
    · rename_i hC
      cases ht : step s a with
      | none =>
        rw [ht] at h
        cases h
      | some t =>
        rw [ht] at h
        obtain ⟨s', hrun, hf⟩ := ih h
        exact ⟨s', Relation.ReflTransGen.head ⟨a, hC, ht⟩ hrun, hf⟩
    · cases h

theorem exec_split {P : σ → Prop} {l : List α} (h : exec step s l = some s') (hs : ¬ P s)
    (hs' : P s') : ∃ l₁ a l₂ t t', l = l₁ ++ a :: l₂ ∧ exec step s l₁ = some t ∧
      step t a = some t' ∧ ¬ P t ∧ P t' := by
  induction l generalizing s with
  | nil =>
    cases h
    exact absurd hs' hs
  | cons a l ih =>
    obtain ⟨t, ht, h⟩ := Option.bind_eq_some_iff.mp h
    by_cases hP : P t
    · exact ⟨[], a, l, s, t, rfl, rfl, ht, hs, hP⟩
    · obtain ⟨l₁, b, l₂, u, u', hl, hu, hb, hP₁, hP₂⟩ := ih h hP
      refine ⟨a :: l₁, b, l₂, u, u', ?_, ?_, hb, hP₁, hP₂⟩
      · rw [hl]
        rfl
      · show (step s a).bind _ = some u
        rw [ht]
        exact hu

theorem exec_each_cons {P : σ → α → Prop} {a : α} {l : List α} :
    (∀ l₁ b l₂ t, a :: l = l₁ ++ b :: l₂ → exec step s l₁ = some t → P t b) ↔
      P s a ∧ ∀ u, step s a = some u →
        ∀ l₁ b l₂ t, l = l₁ ++ b :: l₂ → exec step u l₁ = some t → P t b := by
  constructor
  · intro h
    refine ⟨h [] a l s rfl rfl, fun u hu l₁ b l₂ t hl ht => ?_⟩
    refine h (a :: l₁) b l₂ t (by rw [hl]; rfl) ?_
    show (step s a).bind _ = some t
    rw [hu]
    exact ht
  · rintro ⟨ha, hrest⟩ l₁ b l₂ t hl ht
    cases l₁ with
    | nil =>
      obtain ⟨rfl, -⟩ := List.cons.inj hl
      cases ht
      exact ha
    | cons c l₁ =>
      obtain ⟨rfl, htail⟩ := List.cons.inj hl
      obtain ⟨u, hu, ht⟩ := Option.bind_eq_some_iff.mp ht
      exact hrest u hu l₁ b l₂ t htail ht

/-- **Two properties of an action** that are equivalent under an invariant, which they keep, hold of
each action of a schedule together. -/
theorem exec_each_iff {I : σ → Prop} {A : α → Prop} {P Q : σ → α → Prop} {l : List α}
    (hPQ : ∀ s a, I s → A a → (P s a ↔ Q s a))
    (hI : ∀ s a s', I s → A a → P s a → step s a = some s' → I s') (h : I s) (hA : ∀ a ∈ l, A a) :
    (∀ l₁ a l₂ t, l = l₁ ++ a :: l₂ → exec step s l₁ = some t → P t a) ↔
      ∀ l₁ a l₂ t, l = l₁ ++ a :: l₂ → exec step s l₁ = some t → Q t a := by
  induction l generalizing s with
  | nil =>
    have hnil : ∀ (l₁ : List α) (a : α) (l₂ : List α), ([] : List α) ≠ l₁ ++ a :: l₂ := by
      intro l₁ a l₂ hl
      exact List.append_ne_nil_of_right_ne_nil l₁ (List.cons_ne_nil a l₂) hl.symm
    exact ⟨fun _ l₁ a l₂ _ hl => absurd hl (hnil l₁ a l₂), fun _ l₁ a l₂ _ hl => absurd hl (hnil l₁ a l₂)⟩
  | cons a l ih =>
    have ha := hA a List.mem_cons_self
    rw [exec_each_cons, exec_each_cons, ← hPQ s a h ha]
    refine and_congr_right fun hp => forall_congr' fun u => forall_congr' fun hu => ?_
    exact ih (hI s a u h ha hp hu) fun b hb => hA b (List.mem_cons_of_mem _ hb)

/-- a schedule after which a test answers yes leads to a state that passes it -/
theorem Run.of_test {l : List α} {f : σ → Bool} (h : (exec step s l).any f = true) :
    ∃ s', AnyRun step s s' ∧ f s' = true := by
  cases e : exec step s l with
  | none =>
    rw [e] at h
    cases h
  | some s' =>
    rw [e] at h
    exact ⟨s', Run.of_exec e, h⟩

end Runs
