import LearnDiary.Lib.Runs
import Mathlib.Logic.Function.Basic

/-!
# `SpinLock` under `ScopedSpinLock` (comm/thread/spinlock.h, comm/unix/thread/lock.h)

Any number of `BaseScopedLock` objects on one `SpinLock`, each used by one thread at a time.  A step
is one access to `state_` or one call of `cpu_relax` or `sched_yield`.

* `Inv`            who has set `state_`, and how long each caller has paused;
* `run_exclusive`  at most one object has the lock, and `state_` says whether one has;
* `run_pauses`     a caller pauses 14 times between two calls of `sched_yield`.
-/

namespace SpinLock
open Runs

def initial_pause : Nat := 2
def max_pause : Nat := 16

inductive Pc where
  | idle
  /-- `SpinLock::lock`: at `trylock()`, in the `for`, at `sched_yield()` -/
  | lock (pause_count : Nat)
  | pause (pause_count i : Nat)
  | yield
  /-- `BaseScopedLock::trylock`, at that of the mutex -/
  | trylock
  /-- `state_` is set, and `islocked_` not yet -/
  | locked
  /-- `BaseScopedLock::unlock`: at `mutex_.unlock()`, behind it -/
  | unlock
  | unlocked
deriving DecidableEq

structure Scoped where
  islocked_ : Bool := false
  pc : Pc := .idle
  /-- the calls of `cpu_relax` since `lock` or its last `sched_yield` -/
  relaxed : Nat := 0

structure State (ι : Type) where
  state_ : Nat := 0
  locks : ι → Scoped := fun _ => {}

inductive Act (ι : Type) where
  | lock (o : ι)
  | trylock (o : ι)
  /-- `unlock`, or the destructor of a locked object -/
  | unlock (o : ι)
  /-- the caller goes on -/
  | go (o : ι)

section
variable {ι : Type} [DecidableEq ι]

def State.put (s : State ι) (o : ι) (x : Scoped) : State ι :=
  { s with locks := Function.update s.locks o x }

/-- a call begins; `ASSERT` only reports -/
def State.call (s : State ι) (o : ι) (locked : Bool) (x : Scoped) : Option (State ι) :=
  if (s.locks o).pc = .idle then
    some (if (s.locks o).islocked_ = locked then s.put o x else s)
  else none

def State.go (s : State ι) (o : ι) : Option (State ι) :=
  let x := s.locks o
  match x.pc with
  | .idle => none
  | .lock pause_count =>
    if s.state_ = 0 then some { s.put o { x with pc := .locked } with state_ := 1 }
    else if pause_count < max_pause then some (s.put o { x with pc := .pause pause_count 0 })
    else some (s.put o { x with pc := .yield })
  | .pause pause_count i =>
    if i < pause_count then
      some (s.put o { x with pc := .pause pause_count (i + 1), relaxed := x.relaxed + 1 })
    else some (s.put o { x with pc := .lock (pause_count + pause_count) })
  | .yield => some (s.put o { x with pc := .lock initial_pause, relaxed := 0 })
  | .trylock =>
    if s.state_ = 0 then some { s.put o { x with pc := .locked } with state_ := 1 }
    else some (s.put o { x with pc := .idle, islocked_ := false })
  | .locked => some (s.put o { x with pc := .idle, islocked_ := true })
  | .unlock => some { s.put o { x with pc := .unlocked } with state_ := 0 }
  | .unlocked => some (s.put o { x with pc := .idle, islocked_ := false })

def step (s : State ι) : Act ι → Option (State ι)
  | .lock o => s.call o false { s.locks o with pc := .lock initial_pause, relaxed := 0 }
  | .trylock o => s.call o false { s.locks o with pc := .trylock }
  | .unlock o => s.call o true { s.locks o with pc := .unlock }
  | .go o => s.go o

end

/-! ## the invariant -/

def Scoped.owns (x : Scoped) : Bool :=
  match x.pc with
  | .locked => true
  | .unlocked => false
  | _ => x.islocked_

/-- what is known at each place: the pauses are doubled from `initial_pause` on -/
def Scoped.Fits (x : Scoped) : Prop :=
  match x.pc with
  | .idle => True
  | .lock p => x.islocked_ = false ∧ (p = 2 ∨ p = 4 ∨ p = 8 ∨ p = 16) ∧ x.relaxed + 2 = p
  | .pause p i =>
    x.islocked_ = false ∧ (p = 2 ∨ p = 4 ∨ p = 8) ∧ i ≤ p ∧ x.relaxed + 2 = p + i
  | .yield => x.islocked_ = false ∧ x.relaxed = 14
  | .trylock => x.islocked_ = false
  | .locked => x.islocked_ = false
  | .unlock => x.islocked_ = true
  | .unlocked => x.islocked_ = true

structure Inv {ι : Type} (s : State ι) : Prop where
  word : s.state_ = 0 ∨ s.state_ = 1
  held : s.state_ = 1 ↔ ∃ o, (s.locks o).owns = true
  one : ∀ o o', (s.locks o).owns = true → (s.locks o').owns = true → o' = o
  fits : ∀ o, (s.locks o).Fits

section
variable {ι : Type} {s s' : State ι} {o o' : ι} {x : Scoped}

theorem Inv.init : Inv ({} : State ι) where
  word := Or.inl rfl
  held := by
    constructor
    · intro h
      cases h
    · rintro ⟨o, ho⟩
      cases ho
  one := fun _ _ h => by cases h
  fits := fun _ => trivial

variable [DecidableEq ι]

theorem put_self (s : State ι) (o : ι) (x : Scoped) : (s.put o x).locks o = x :=
  Function.update_self ..

theorem put_ne (x : Scoped) (h : o' ≠ o) : (s.put o x).locks o' = s.locks o' :=
  Function.update_of_ne h ..

theorem Inv.put_fits (h : Inv s) (hx : x.Fits) (o' : ι) : ((s.put o x).locks o').Fits := by
  by_cases he : o' = o
  · rw [he, put_self]
    exact hx
  · rw [put_ne x he]
    exact h.fits o'

theorem Inv.quiet (h : Inv s) (ho : x.owns = (s.locks o).owns) (hx : x.Fits) : Inv (s.put o x) := by
  have howns : ∀ o', ((s.put o x).locks o').owns = (s.locks o').owns := by
    intro o'
    by_cases he : o' = o
    · rw [he, put_self, ho]
    · rw [put_ne x he]
  refine ⟨h.word, ?_, fun o₁ o₂ h₁ h₂ => ?_, h.put_fits hx⟩
  · simp only [howns]
    exact h.held
  · rw [howns] at h₁ h₂
    exact h.one o₁ o₂ h₁ h₂

theorem Inv.acquire (h : Inv s) (h0 : s.state_ = 0) (ho : x.owns = true) (hx : x.Fits) :
    Inv { s.put o x with state_ := 1 } := by
  have hfree : ∀ o', (s.locks o').owns ≠ true := fun o' hc => by
    have h1 := h.held.mpr ⟨o', hc⟩
    rw [h0] at h1
    cases h1
  have hself : ∀ o', ((s.put o x).locks o').owns = true → o' = o := by
    intro o' hc
    by_contra hne
    rw [put_ne x hne] at hc
    exact hfree o' hc
  exact ⟨Or.inr rfl, ⟨fun _ => ⟨o, by rw [show State.locks _ o = x from put_self s o x, ho]⟩,
    fun _ => rfl⟩, fun o₁ o₂ h₁ h₂ => (hself o₂ h₂).trans (hself o₁ h₁).symm, h.put_fits hx⟩

theorem Inv.release (h : Inv s) (hown : (s.locks o).owns = true) (ho : x.owns = false)
    (hx : x.Fits) : Inv { s.put o x with state_ := 0 } := by
  have hfree : ∀ o', ((s.put o x).locks o').owns ≠ true := by
    intro o' hc
    by_cases he : o' = o
    · rw [he, put_self, ho] at hc
      cases hc
    · rw [put_ne x he] at hc
      exact he (h.one o o' hown hc)
  refine ⟨Or.inl rfl, ?_, fun o₁ _ h₁ => absurd h₁ (hfree o₁), h.put_fits hx⟩
  constructor
  · intro hc
    cases hc
  · rintro ⟨o', ho'⟩
    exact absurd ho' (hfree o')

theorem call_inv {locked : Bool} (h : Inv s) (hs : s.call o locked x = some s')
    (ho : (s.locks o).islocked_ = locked → x.owns = locked)
    (hx : (s.locks o).islocked_ = locked → x.Fits) : Inv s' := by
  unfold State.call at hs
  split at hs
  · rename_i hpc
    cases hs
    split
    · rename_i hl
      refine h.quiet ?_ (hx hl)
      rw [ho hl, Scoped.owns, hpc, hl]
    · exact h
  · cases hs

/-- **What the step of a caller keeps.** -/
theorem go_inv (h : Inv s) (hs : s.go o = some s') : Inv s' := by
  have hfits := h.fits o
  unfold State.go at hs
  dsimp only at hs
  unfold Scoped.Fits at hfits
  cases hpc : (s.locks o).pc with
  | idle =>
    rw [hpc] at hs
    cases hs
  | lock p =>
    rw [hpc] at hs hfits
    obtain ⟨hl, hp, hr⟩ := hfits
    have hown : (s.locks o).owns = false := by
      rw [Scoped.owns, hpc, hl]
    dsimp only at hs
    split at hs
    · rename_i h0
      cases hs
      exact h.acquire h0 rfl hl
    · split at hs
      · rename_i hlt
        cases hs
        refine h.quiet (hl.trans hown.symm) ⟨hl, ?_, Nat.zero_le _, hr⟩
        unfold max_pause at hlt
        omega
      · rename_i hlt
        cases hs
        refine h.quiet (hl.trans hown.symm) ⟨hl, ?_⟩
        unfold max_pause at hlt
        show (s.locks o).relaxed = 14
        omega
  | pause p i =>
    rw [hpc] at hs hfits
    obtain ⟨hl, hp, hi, hr⟩ := hfits
    have hown : (s.locks o).owns = false := by
      rw [Scoped.owns, hpc, hl]
    dsimp only at hs
    split at hs
    · rename_i hlt
      cases hs
      refine h.quiet (hl.trans hown.symm) ⟨hl, hp, hlt, ?_⟩
      show (s.locks o).relaxed + 1 + 2 = p + (i + 1)
      omega
    · rename_i hlt
      cases hs
      refine h.quiet (hl.trans hown.symm) ⟨hl, by omega, ?_⟩
      show (s.locks o).relaxed + 2 = p + p
      omega
  | yield =>
    rw [hpc] at hs hfits
    cases hs
    refine h.quiet ?_ ⟨hfits.1, Or.inl rfl, rfl⟩
    rw [Scoped.owns, Scoped.owns, hpc]
  | trylock =>
    rw [hpc] at hs hfits
    dsimp only at hs
    split at hs
    · rename_i h0
      cases hs
      exact h.acquire h0 rfl hfits
    · cases hs
      refine h.quiet ?_ trivial
      rw [Scoped.owns, Scoped.owns, hpc, hfits]
  | locked =>
    rw [hpc] at hs
    cases hs
    refine h.quiet ?_ trivial
    rw [Scoped.owns, Scoped.owns, hpc]
  | unlock =>
    rw [hpc] at hs hfits
    cases hs
    exact h.release (by rw [Scoped.owns, hpc]; exact hfits) rfl hfits
  | unlocked =>
    rw [hpc] at hs
    cases hs
    refine h.quiet ?_ trivial
    rw [Scoped.owns, Scoped.owns, hpc]

/-- **One step.** -/
theorem step_inv {a : Act ι} (h : Inv s) (hs : step s a = some s') : Inv s' := by
  cases a with
  | lock o => exact call_inv h hs (fun hl => hl) fun hl => ⟨hl, Or.inl rfl, rfl⟩
  | trylock o => exact call_inv h hs (fun hl => hl) fun hl => hl
  | unlock o => exact call_inv h hs (fun hl => hl) fun hl => hl
  | go o => exact go_inv h hs

theorem run_inv (h : AnyRun step ({} : State ι) s) : Inv s :=
  h.keep (fun _ _ _ hi _ hs => step_inv hi hs) .init

/-- **Whatever is called on the objects**, one of them at most has the lock, and `state_` is 1 where
one has. -/
theorem run_exclusive (h : AnyRun step ({} : State ι) s) :
    (∀ o o', (s.locks o).owns = true → (s.locks o').owns = true → o' = o) ∧
      (s.state_ = 1 ↔ ∃ o, (s.locks o).owns = true) :=
  ⟨(run_inv h).one, (run_inv h).held⟩

def contended : List (Act Bool) := [.lock true, .go true, .go true, .lock false, .go false]

theorem run_exclusive_two :
    ∃ s, exec step ({} : State Bool) contended = some s ∧ s.state_ = 1 :=
  ⟨_, rfl, (run_exclusive (Run.of_exec (l := contended) rfl)).2.mpr ⟨true, rfl⟩⟩

/-- **The pauses of a caller**: `pause_count` says how often it has paused since its last
`sched_yield`, which it calls after 14 pauses. -/
theorem run_pauses (h : AnyRun step ({} : State ι) s) (o : ι) :
    (∀ p, (s.locks o).pc = .lock p →
      (s.locks o).relaxed + initial_pause = p ∧ p ≤ max_pause) ∧
      ((s.locks o).pc = .yield → (s.locks o).relaxed = max_pause - initial_pause) := by
  have hfits := (run_inv h).fits o
  unfold Scoped.Fits at hfits
  constructor
  · intro p hp
    rw [hp] at hfits
    obtain ⟨-, hcase, hr⟩ := hfits
    unfold max_pause
    exact ⟨hr, by omega⟩
  · intro hy
    rw [hy] at hfits
    exact hfits.2

theorem run_pauses_two :
    ∃ s, exec step ({} : State Bool) (contended ++ List.replicate 20 (.go false)) = some s ∧
      (s.locks false).relaxed = 14 :=
  ⟨_, rfl, (run_pauses (Run.of_exec (l := contended ++ List.replicate 20 (.go false)) rfl)
    false).2 rfl⟩

end

end SpinLock
