import Mathlib.Data.Nat.Basic

/-!
# Loops that leave by `return`

One iteration of a `while (true)` loop is a `Turn`: the loop goes on with a new state, it is left
with a result, or the iteration has no meaning (`wild`: an access outside the memory it owns, an
arithmetic overflow the language does not define).

* `Reaches turn s t`   some iterations lead from `s` to `t`;
* `Returns turn s r`   the loop started in `s` is left with `r`;
* `Stops turn s`       after finitely many iterations the loop is over;
* `Stops.of_measure`   termination by a measure that every further iteration lowers;
* `not_stops_of_spin`  a state that is its own successor never leaves the loop;
* `Returns.map`, `Returns.lift`  results carry over along a simulation of the iterations;
* `Returns.rel`        two loops in step are left together.
-/

namespace Loop

inductive Turn (σ : Type*) where
  | again (s : σ)
  | ret (s : σ)
  | wild

variable {σ τ : Type*}

def Turn.map (f : σ → τ) : Turn σ → Turn τ
  | .again s => .again (f s)
  | .ret s => .ret (f s)
  | .wild => .wild

/-- the iteration ends in `t`, whether the loop goes on or not -/
def Turn.Goes (x : Turn σ) (t : σ) : Prop := x = .again t ∨ x = .ret t

theorem Turn.Goes.of_ret {s t : σ} (h : (Turn.ret s).Goes t) : t = s := by
  rcases h with h | h
  · cases h
  · cases h
    rfl

theorem Turn.Goes.of_again {s t : σ} (h : (Turn.again s).Goes t) : t = s := by
  rcases h with h | h
  · cases h
    rfl
  · cases h

theorem Turn.Goes.map {x : Turn σ} {t : σ} (h : x.Goes t) (f : σ → τ) : (x.map f).Goes (f t) := by
  rcases h with rfl | rfl
  · exact Or.inl rfl
  · exact Or.inr rfl

/-- `n` iterations, or fewer when the loop is over before -/
def iter (turn : σ → Turn σ) : Nat → σ → Turn σ
  | 0, s => .again s
  | n + 1, s =>
    match turn s with
    | .again t => iter turn n t
    | .ret r => .ret r
    | .wild => .wild

inductive Reaches (turn : σ → Turn σ) : σ → σ → Prop where
  | refl (s : σ) : Reaches turn s s
  | step {s t u : σ} : turn s = .again t → Reaches turn t u → Reaches turn s u

inductive Returns (turn : σ → Turn σ) : σ → σ → Prop where
  | ret {s r : σ} : turn s = .ret r → Returns turn s r
  | again {s t r : σ} : turn s = .again t → Returns turn t r → Returns turn s r

def Stops (turn : σ → Turn σ) (s : σ) : Prop := ∃ n, ∀ t, iter turn n s ≠ .again t

section
variable {turn : σ → Turn σ}

theorem Returns.det {s r r' : σ} (h : Returns turn s r) (h' : Returns turn s r') : r = r' := by
  induction h with
  | ret e =>
    cases h' with
    | ret e' => rw [e] at e'; cases e'; rfl
    | again e' _ => rw [e] at e'; cases e'
  | again e _ ih =>
    cases h' with
    | ret e' => rw [e] at e'; cases e'
    | again e' h' => rw [e] at e'; cases e'; exact ih h'

/-- the loop does not see more of a state than its first iteration does -/
theorem Returns.of_turn_eq {s t r : σ} (e : turn s = turn t) (h : Returns turn t r) :
    Returns turn s r := by
  cases h with
  | ret h => exact .ret (e.trans h)
  | again h h' => exact .again (e.trans h) h'

theorem Reaches.trans {s t u : σ} (h : Reaches turn s t) (h' : Reaches turn t u) :
    Reaches turn s u := by
  induction h with
  | refl => exact h'
  | step e _ ih => exact .step e (ih h')

theorem Reaches.next {s t u : σ} (h : Reaches turn s t) (e : turn t = .again u) :
    Reaches turn s u :=
  h.trans (.step e (.refl u))

theorem Returns.of_reaches {s t r : σ} (h : Reaches turn s t) (hr : Returns turn t r) :
    Returns turn s r := by
  induction h with
  | refl => exact hr
  | step e _ ih => exact .again e (ih hr)

theorem Returns.from_reached {s t r : σ} (hr : Returns turn s r) (h : Reaches turn s t) :
    Returns turn t r := by
  induction h with
  | refl => exact hr
  | step e _ ih =>
    cases hr with
    | ret e' => rw [e] at e'; cases e'
    | again e' hr => rw [e] at e'; cases e'; exact ih hr

theorem Returns.last {s r : σ} (h : Returns turn s r) : ∃ t, Reaches turn s t ∧ turn t = .ret r := by
  induction h with
  | ret e => exact ⟨_, .refl _, e⟩
  | again e _ ih =>
    obtain ⟨t, ht, er⟩ := ih
    exact ⟨t, .step e ht, er⟩

theorem iter_succ_again {s t : σ} (e : turn s = .again t) (n : Nat) :
    iter turn (n + 1) s = iter turn n t := by
  simp only [iter, e]

theorem Returns.iter {s r : σ} (h : Returns turn s r) : ∃ n, iter turn n s = .ret r := by
  induction h with
  | ret e => exact ⟨1, by simp only [Loop.iter, e]⟩
  | again e _ ih =>
    obtain ⟨n, hn⟩ := ih
    exact ⟨n + 1, by rw [iter_succ_again e, hn]⟩

theorem Returns.of_iter {s r : σ} {n : Nat} (h : Loop.iter turn n s = .ret r) :
    Returns turn s r := by
  induction n generalizing s with
  | zero => cases h
  | succ n ih =>
    cases e : turn s with
    | again t => exact .again e (ih (by rwa [iter_succ_again e] at h))
    | ret r' =>
      simp only [Loop.iter, e] at h
      cases h
      exact .ret e
    | wild => simp only [Loop.iter, e] at h; cases h

theorem stops_ret {s r : σ} (e : turn s = .ret r) : Stops turn s :=
  ⟨1, fun t h => by simp only [iter, e] at h; cases h⟩

theorem stops_wild {s : σ} (e : turn s = .wild) : Stops turn s :=
  ⟨1, fun t h => by simp only [iter, e] at h; cases h⟩

theorem stops_again {s t : σ} (e : turn s = .again t) : Stops turn s ↔ Stops turn t := by
  constructor
  · rintro ⟨n, hn⟩
    cases n with
    | zero => exact absurd rfl (hn s)
    | succ n => exact ⟨n, fun u h => hn u (by rw [iter_succ_again e, h])⟩
  · rintro ⟨n, hn⟩
    exact ⟨n + 1, fun u h => hn u (by rw [← iter_succ_again e, h])⟩

theorem Returns.stops {s r : σ} (h : Returns turn s r) : Stops turn s := by
  induction h with
  | ret e => exact stops_ret e
  | again e _ ih => exact (stops_again e).mpr ih

theorem not_stops_of_spin {s : σ} (e : turn s = .again s) : ¬ Stops turn s := by
  rintro ⟨n, hn⟩
  apply hn s
  clear hn
  induction n with
  | zero => rfl
  | succ n ih => rw [iter_succ_again e, ih]

/-- every iteration that goes on lowers `m` and keeps `P` -/
theorem Stops.of_measure (P : σ → Prop) (m : σ → Nat)
    (hstep : ∀ s t, P s → turn s = .again t → P t ∧ m t < m s) {s : σ} (hs : P s) :
    Stops turn s := by
  generalize hn : m s = n
  induction n using Nat.strong_induction_on generalizing s with
  | _ n ih =>
    cases e : turn s with
    | again t =>
      obtain ⟨ht, hlt⟩ := hstep s t hs e
      exact (stops_again e).mpr (ih (m t) (by omega) ht rfl)
    | ret r => exact stops_ret e
    | wild => exact stops_wild e

theorem Stops.returns {s : σ} (h : Stops turn s) (hw : ∀ t, Reaches turn s t → turn t ≠ .wild) :
    ∃ r, Returns turn s r := by
  obtain ⟨n, hn⟩ := h
  induction n generalizing s with
  | zero => exact absurd rfl (hn s)
  | succ n ih =>
    cases e : turn s with
    | again t =>
      obtain ⟨r, hr⟩ := ih (fun u hu => hw u (.step e hu))
        (fun u h => hn u (by rw [iter_succ_again e, h]))
      exact ⟨r, .again e hr⟩
    | ret r => exact ⟨r, .ret e⟩
    | wild => exact absurd e (hw s (.refl s))

/-- what every iteration keeps holds in every state of the loop and in its result -/
theorem Reaches.keep {P : σ → Prop} (hkeep : ∀ s t, P s → turn s = .again t → P t) {s t : σ}
    (h : Reaches turn s t) (hs : P s) : P t := by
  induction h with
  | refl => exact hs
  | step e _ ih => exact ih (hkeep _ _ hs e)

end

/-! ## simulation -/

section
variable {turn : σ → Turn σ} {g : τ → Turn τ} {f : σ → τ}

theorem Reaches.map {P : σ → Prop} (hsim : ∀ s, P s → (turn s).map f = g (f s)) {s t : σ}
    (h : Reaches turn s t) (hP : ∀ u, Reaches turn s u → P u) : Reaches g (f s) (f t) := by
  induction h with
  | refl s => exact .refl _
  | @step s t u e _ ih =>
    have h1 := hsim s (hP s (.refl s))
    rw [e] at h1
    exact .step h1.symm (ih (fun v hv => hP v (.step e hv)))

/-- the iterations of the simulating loop are images -/
theorem Reaches.lift {P : σ → Prop} (hsim : ∀ s, P s → (turn s).map f = g (f s)) {s : σ} {u : τ}
    (h : Reaches g (f s) u) (hP : ∀ u, Reaches turn s u → P u) :
    ∃ t, Reaches turn s t ∧ f t = u := by
  generalize hv : f s = v at h
  induction h generalizing s with
  | refl v => exact ⟨s, .refl s, hv⟩
  | step e _ ih =>
    have h1 := hsim s (hP s (.refl s))
    rw [hv, e] at h1
    cases es : turn s with
    | again t =>
      rw [es] at h1
      cases h1
      obtain ⟨t', ht', et⟩ := ih (fun u hu => hP u (.step es hu)) rfl
      exact ⟨t', .step es ht', et⟩
    | ret r => rw [es] at h1; cases h1
    | wild => rw [es] at h1; cases h1

theorem Returns.map {P : σ → Prop} (hsim : ∀ s, P s → (turn s).map f = g (f s)) {s r : σ}
    (h : Returns turn s r) (hP : ∀ u, Reaches turn s u → P u) : Returns g (f s) (f r) := by
  induction h with
  | @ret s r e =>
    have h1 := hsim s (hP s (.refl s))
    rw [e] at h1
    exact .ret h1.symm
  | @again s t r e _ ih =>
    have h1 := hsim s (hP s (.refl s))
    rw [e] at h1
    exact .again h1.symm (ih (fun v hv => hP v (.step e hv)))

theorem iter_map {P : σ → Prop} (hsim : ∀ s, P s → (turn s).map f = g (f s))
    (hkeep : ∀ s t, P s → turn s = .again t → P t) {s : σ} (hs : P s) (n : Nat) :
    (iter turn n s).map f = iter g n (f s) := by
  induction n generalizing s with
  | zero => rfl
  | succ n ih =>
    have h1 := hsim s hs
    cases e : turn s with
    | again t =>
      rw [e] at h1
      rw [iter_succ_again e, iter_succ_again h1.symm, ih (hkeep s t hs e)]
    | ret r =>
      rw [e] at h1
      simp only [iter, e, ← h1, Turn.map]
    | wild =>
      rw [e] at h1
      simp only [iter, e, ← h1, Turn.map]

/-- as long as neither is `wild`, both iterations go on or both leave the loop -/
def Turn.Rel (R Q : σ → τ → Prop) : Turn σ → Turn τ → Prop
  | .again s, .again t => R s t
  | .ret s, .ret t => Q s t
  | .wild, _ => True
  | _, .wild => True
  | _, _ => False

theorem Returns.rel {R Q : σ → τ → Prop}
    (hstep : ∀ s t, R s t → Turn.Rel R Q (turn s) (g t))
    {s r : σ} {t r' : τ} (h : R s t) (hs : Returns turn s r) (ht : Returns g t r') : Q r r' := by
  induction hs generalizing t with
  | @ret s r e =>
    have h1 := hstep s t h
    rw [e] at h1
    cases ht with
    | ret e' => rwa [e'] at h1
    | again e' _ =>
      rw [e'] at h1
      exact h1.elim
  | @again s u r e _ ih =>
    have h1 := hstep s t h
    rw [e] at h1
    cases ht with
    | ret e' =>
      rw [e'] at h1
      exact h1.elim
    | again e' ht =>
      rw [e'] at h1
      exact ih h1 ht

theorem stops_map {P : σ → Prop} (hsim : ∀ s, P s → (turn s).map f = g (f s))
    (hkeep : ∀ s t, P s → turn s = .again t → P t) {s : σ} (hs : P s) :
    Stops turn s ↔ Stops g (f s) := by
  constructor
  · rintro ⟨n, hn⟩
    refine ⟨n, fun u hu => ?_⟩
    rw [← iter_map hsim hkeep hs n] at hu
    cases e : iter turn n s with
    | again t => exact hn t e
    | ret r => rw [e] at hu; cases hu
    | wild => rw [e] at hu; cases hu
  · rintro ⟨n, hn⟩
    refine ⟨n, fun t ht => hn (f t) ?_⟩
    rw [← iter_map hsim hkeep hs n, ht]
    rfl

theorem Returns.lift {P : σ → Prop} (hsim : ∀ s, P s → (turn s).map f = g (f s)) {s : σ} {r : τ}
    (h : Returns g (f s) r) (hP : ∀ u, Reaches turn s u → P u) :
    ∃ r', Returns turn s r' ∧ f r' = r := by
  generalize hv : f s = v at h
  induction h generalizing s with
  | ret e =>
    have h1 := hsim s (hP s (.refl s))
    rw [hv, e] at h1
    cases es : turn s with
    | again t => rw [es] at h1; cases h1
    | ret r' => rw [es] at h1; cases h1; exact ⟨r', .ret es, rfl⟩
    | wild => rw [es] at h1; cases h1
  | again e _ ih =>
    have h1 := hsim s (hP s (.refl s))
    rw [hv, e] at h1
    cases es : turn s with
    | again t =>
      rw [es] at h1
      cases h1
      obtain ⟨r', hr', er⟩ := ih (fun v hv => hP v (.step es hv)) rfl
      exact ⟨r', .again es hr', er⟩
    | ret r' => rw [es] at h1; cases h1
    | wild => rw [es] at h1; cases h1

end

end Loop
