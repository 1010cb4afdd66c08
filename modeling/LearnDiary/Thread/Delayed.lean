import LearnDiary.Thread.Reference
import LearnDiary.Lib.Runs

/-!
# Delayed starts (comm/unix/thread/thread.h, condition.h)

The run of a `Thread` started by `start_after` or `start_periodic` beside the calls of
`cancel_after` and `cancel_periodic`.  Each access to a flag and each operation on the condition is
one step; a cancel holds `splock`, which the run takes for its first and its last step only.

* `Inv.run`      what a cancel has told the run before it returns;
* `Over.keep`    a run that has heard of the cancel does not wait and does not run any more;
* `cancel_iff`   when a cancel takes effect.
-/

namespace Thread

inductive Routine where
  | start_routine_after
  | start_routine_periodic
deriving DecidableEq

inductive Pc where
  | init
  /-- `if (!iscanceldelaystart)` -/
  | firstTest
  /-- `atomic_cas32(&anyway_notify_, 0, 1)` of the wait -/
  | cas
  /-- `pthread_cond_timedwait` -/
  | block
  /-- in `pthread_cond_timedwait` -/
  | blocked
  /-- `anyway_notify_ = 0` -/
  | clear
  /-- the test before `run()`, of the `if` or of the `while` -/
  | test
  /-- `target->run()` -/
  | run
  /-- in `run()` -/
  | running
  /-- the test behind `run()` of the periodic routine -/
  | again
  | cleanup
  | ended
deriving DecidableEq

inductive Canceller where
  | idle
  /-- `iscanceldelaystart = true` -/
  | flag
  /-- `anyway_notify_ = 1` -/
  | notify
  /-- `pthread_cond_broadcast` -/
  | broadcast
  /-- the return -/
  | leave
deriving DecidableEq

structure Delayed where
  routine : Routine
  r : RunnableReference
  pc : Pc := .init
  canceller : Canceller := .idle
  /-- how often `run()` was entered -/
  runs : Nat := 0
deriving DecidableEq

def began (outside_join_ : Bool) (tid : Nat) (r : RunnableReference) (after : Int) :
    Option Int → Delayed
  | none =>
    { routine := .start_routine_after
      r := r.start_after outside_join_ after (some tid) }
  | some periodic =>
    { routine := .start_routine_periodic
      r := r.start_periodic outside_join_ after periodic (some tid) }

inductive Act where
  /-- the next step of the run -/
  | go
  /-- the wait ends without a broadcast: its time is over, or for no reason -/
  | timeout
  /-- a cancel is called -/
  | cancel
  /-- the next step of the cancel -/
  | proceed
deriving DecidableEq

namespace Delayed

def go (s : Delayed) : Option Delayed :=
  match s.pc with
  | .init =>
    if s.canceller = .idle then some { s with r := s.r.init, pc := .firstTest } else none
  | .firstTest => some { s with pc := if s.r.iscanceldelaystart then .cleanup else .cas }
  | .cas =>
    if s.r.anyway_notify_ then
      some { s with r := { s.r with anyway_notify_ := false }, pc := .clear }
    else some { s with pc := .block }
  | .block => some { s with pc := .blocked }
  | .blocked => none
  | .clear => some { s with r := { s.r with anyway_notify_ := false }, pc := .test }
  | .test => some { s with pc := if s.r.iscanceldelaystart then .cleanup else .run }
  | .run => some { s with pc := .running, runs := s.runs + 1 }
  | .running =>
    match s.routine with
    | .start_routine_after => some { s with pc := .cleanup }
    | .start_routine_periodic => some { s with pc := .again }
  | .again => some { s with pc := if s.r.iscanceldelaystart then .test else .cas }
  | .cleanup =>
    if s.canceller = .idle then some { s with r := s.r.cleanup, pc := .ended } else none
  | .ended => none

def proceed (s : Delayed) : Option Delayed :=
  match s.canceller with
  | .idle => none
  | .flag => some { s with r := { s.r with iscanceldelaystart := true }, canceller := .notify }
  | .notify => some { s with r := { s.r with anyway_notify_ := true }, canceller := .broadcast }
  | .broadcast => some { s with pc := if s.pc = .blocked then .clear else s.pc, canceller := .leave }
  | .leave => some { s with canceller := .idle }

def step (s : Delayed) : Act → Option Delayed
  | .go => s.go
  | .timeout => if s.pc = .blocked then some { s with pc := .clear } else none
  | .cancel =>
    if s.canceller = .idle then
      if s.r.isruning then some { s with canceller := .flag } else some s
    else none
  | .proceed => s.proceed

/-- the cancel has taken effect: `run()` is not entered again and the run does not lie in a wait -/
def Cancelled (s : Delayed) : Prop :=
  ∀ u, Runs.AnyRun step s u → u.runs = s.runs ∧ u.pc ≠ .blocked

/-- the run is past the test of `anyway_notify_` and has not been woken since -/
def waits (s : Delayed) : Bool := s.pc = .block || s.pc = .blocked

/-- the run is past the test of `iscanceldelaystart` and before `run()` -/
def aboutToRun (s : Delayed) : Bool := s.pc = .run

end Delayed

open Delayed

/-- what the cancel has told the run -/
structure Delayed.Inv (s : Delayed) : Prop where
  flagged : s.canceller = .notify ∨ s.canceller = .broadcast ∨ s.canceller = .leave →
    s.r.iscanceldelaystart = true
  notified : s.canceller = .broadcast ∨ s.canceller = .leave → s.pc = .cas →
    s.r.anyway_notify_ = true
  ended : s.r.isended = true → s.pc = .ended

/-- the run has heard of the cancel, and entered `run()` `n` times -/
structure Over (n : Nat) (s : Delayed) : Prop where
  flagged : s.r.iscanceldelaystart = true
  notified : s.pc = .cas → s.r.anyway_notify_ = true
  block : s.pc ≠ .block
  blocked : s.pc ≠ .blocked
  run : s.pc ≠ .run
  runs : s.runs = n

section
variable {s s' : Delayed} {n : Nat}

theorem Over.go (h : Over n s) (hs : s.go = some s') : Over n s' := by
  unfold Delayed.go at hs
  have hf := h.flagged
  split at hs
  · split at hs
    · cases hs
      exact ⟨hf, nofun, nofun, nofun, nofun, h.runs⟩
    · cases hs
  · rw [if_pos hf] at hs
    cases hs
    exact ⟨hf, nofun, nofun, nofun, nofun, h.runs⟩
  · rename_i hpc
    rw [if_pos (h.notified hpc)] at hs
    cases hs
    exact ⟨hf, nofun, nofun, nofun, nofun, h.runs⟩
  · rename_i hpc
    exact absurd hpc h.block
  · cases hs
  · cases hs
    exact ⟨hf, nofun, nofun, nofun, nofun, h.runs⟩
  · rw [if_pos hf] at hs
    cases hs
    exact ⟨hf, nofun, nofun, nofun, nofun, h.runs⟩
  · rename_i hpc
    exact absurd hpc h.run
  · split at hs <;> cases hs <;> exact ⟨hf, nofun, nofun, nofun, nofun, h.runs⟩
  · rw [if_pos hf] at hs
    cases hs
    exact ⟨hf, nofun, nofun, nofun, nofun, h.runs⟩
  · split at hs
    · cases hs
      exact ⟨hf, nofun, nofun, nofun, nofun, h.runs⟩
    · cases hs
  · cases hs

theorem Over.proceed (h : Over n s) (hs : s.proceed = some s') : Over n s' := by
  unfold Delayed.proceed at hs
  split at hs
  · cases hs
  · cases hs
    exact ⟨rfl, h.notified, h.block, h.blocked, h.run, h.runs⟩
  · cases hs
    exact ⟨h.flagged, fun _ => rfl, h.block, h.blocked, h.run, h.runs⟩
  · rw [if_neg h.blocked] at hs
    cases hs
    exact ⟨h.flagged, h.notified, h.block, h.blocked, h.run, h.runs⟩
  · cases hs
    exact ⟨h.flagged, h.notified, h.block, h.blocked, h.run, h.runs⟩

/-- **a run that has heard of the cancel**: no step of it or of a cancel makes it wait or run -/
theorem Over.keep (h : Over n s) {a : Act} (hs : step s a = some s') : Over n s' := by
  cases a with
  | go => exact h.go hs
  | timeout =>
    rw [step, if_neg h.blocked] at hs
    cases hs
  | cancel =>
    rw [step] at hs
    split at hs
    · split at hs <;> cases hs <;>
        exact ⟨h.flagged, h.notified, h.block, h.blocked, h.run, h.runs⟩
    · cases hs
  | proceed => exact h.proceed hs

theorem Over.cancelled (h : Over s.runs s) : s.Cancelled := by
  intro u hu
  have ho : Over s.runs u := hu.keep (fun _ _ _ h _ hs => h.keep hs) h
  exact ⟨ho.runs, ho.blocked⟩

/-! ## what a cancel tells -/

/-- the run leaves the cancel and its flag alone, begins a wait only where the flag is unset, and
says in its last step that it has ended -/
theorem go_frame (hs : s.go = some s') : s'.canceller = s.canceller ∧
    s'.r.iscanceldelaystart = s.r.iscanceldelaystart ∧
    (s'.pc = .cas → s.r.iscanceldelaystart = false) ∧
    (s'.r.isended = s.r.isended ∧ s.pc ≠ .ended ∨ s'.pc = .ended) := by
  have hcas : ∀ (b : Bool) (p : Pc), (if b = true then p else .cas) = .cas → p ≠ .cas →
      b = false := by
    intro b p h hp
    cases b with
    | false => rfl
    | true => exact absurd h hp
  unfold Delayed.go at hs
  split at hs
  · rename_i hpc
    split at hs
    · cases hs
      exact ⟨rfl, rfl, nofun, .inl ⟨rfl, by rw [hpc]; nofun⟩⟩
    · cases hs
  · rename_i hpc
    cases hs
    exact ⟨rfl, rfl, fun h => hcas _ _ h nofun, .inl ⟨rfl, by rw [hpc]; nofun⟩⟩
  · rename_i hpc
    split at hs <;> cases hs <;> exact ⟨rfl, rfl, nofun, .inl ⟨rfl, by rw [hpc]; nofun⟩⟩
  · rename_i hpc
    cases hs
    exact ⟨rfl, rfl, nofun, .inl ⟨rfl, by rw [hpc]; nofun⟩⟩
  · cases hs
  · rename_i hpc
    cases hs
    exact ⟨rfl, rfl, nofun, .inl ⟨rfl, by rw [hpc]; nofun⟩⟩
  · rename_i hpc
    cases hs
    refine ⟨rfl, rfl, fun h => ?_, .inl ⟨rfl, by rw [hpc]; nofun⟩⟩
    dsimp only at h
    split at h <;> cases h
  · rename_i hpc
    cases hs
    exact ⟨rfl, rfl, nofun, .inl ⟨rfl, by rw [hpc]; nofun⟩⟩
  · rename_i hpc
    split at hs <;> cases hs <;> exact ⟨rfl, rfl, nofun, .inl ⟨rfl, by rw [hpc]; nofun⟩⟩
  · rename_i hpc
    cases hs
    exact ⟨rfl, rfl, fun h => hcas _ _ h nofun, .inl ⟨rfl, by rw [hpc]; nofun⟩⟩
  · split at hs
    · cases hs
      exact ⟨rfl, rfl, nofun, .inr rfl⟩
    · cases hs
  · cases hs

theorem Delayed.Inv.step (hi : s.Inv) {a : Act} (hs : step s a = some s') : s'.Inv := by
  cases a with
  | go =>
    obtain ⟨hc, hf, hcas, hend⟩ := go_frame hs
    refine ⟨?_, ?_, ?_⟩
    · intro h
      rw [hf]
      exact hi.flagged (hc ▸ h)
    · intro h hpc
      have := hi.flagged (.inr (hc ▸ h))
      rw [hcas hpc] at this
      cases this
    · intro h
      rcases hend with ⟨he, hpc⟩ | hpc
      · exact absurd (hi.ended (he ▸ h)) hpc
      · exact hpc
  | timeout =>
    rw [Delayed.step] at hs
    split at hs
    · rename_i hpc
      cases hs
      refine ⟨hi.flagged, nofun, fun h => ?_⟩
      have := hi.ended h
      rw [hpc] at this
      cases this
    · cases hs
  | cancel =>
    rw [Delayed.step] at hs
    split at hs
    · split at hs
      · cases hs
        refine ⟨?_, ?_, hi.ended⟩
        · rintro (h | h | h) <;> cases h
        · rintro (h | h) <;> cases h
      · cases hs
        exact hi
    · cases hs
  | proceed =>
    rw [Delayed.step, Delayed.proceed] at hs
    split at hs
    · cases hs
    · cases hs
      refine ⟨fun _ => rfl, ?_, hi.ended⟩
      rintro (h | h) <;> cases h
    · rename_i hc
      cases hs
      exact ⟨fun _ => hi.flagged (.inl hc), fun _ _ => rfl, hi.ended⟩
    · rename_i hc
      cases hs
      refine ⟨fun _ => hi.flagged (.inr (.inl hc)), fun _ hpc => hi.notified (.inl hc) ?_, ?_⟩
      · dsimp only at hpc
        split at hpc
        · cases hpc
        · exact hpc
      · intro h
        have := hi.ended h
        dsimp only
        rw [this, if_neg nofun]
    · cases hs
      refine ⟨?_, ?_, hi.ended⟩
      · rintro (h | h | h) <;> cases h
      · rintro (h | h) <;> cases h

theorem began_inv (outside_join_ : Bool) (tid : Nat) (r : RunnableReference) (after : Int)
    (periodic : Option Int) : (began outside_join_ tid r after periodic).Inv := by
  refine ⟨?_, ?_, ?_⟩
  · cases periodic <;> rintro (h | h | h) <;> cases h
  · cases periodic <;> rintro (h | h) <;> cases h
  · cases periodic <;> intro h <;> cases h

/-- **what a cancel has told the run**, in every state of a delayed start -/
theorem Delayed.Inv.run (hi : s.Inv) (h : Runs.AnyRun Delayed.step s s') : s'.Inv :=
  h.keep (fun _ _ _ hi _ hs => hi.step hs) hi

end

theorem cancelled_of_ended {s : Delayed} (hpc : s.pc = .ended) : s.Cancelled := by
  intro u hu
  have hkeep : u.runs = s.runs ∧ u.pc = .ended := by
    refine hu.keep (P := fun u => u.runs = s.runs ∧ u.pc = .ended) ?_ ⟨rfl, hpc⟩
    rintro u a u' ⟨hn, hp⟩ - ha
    cases a with
    | go =>
      rw [step, Delayed.go, hp] at ha
      cases ha
    | timeout =>
      rw [step, if_neg (by rw [hp]; nofun)] at ha
      cases ha
    | cancel =>
      rw [step] at ha
      split at ha
      · split at ha <;> cases ha <;> exact ⟨hn, hp⟩
      · cases ha
    | proceed =>
      rw [step, Delayed.proceed] at ha
      split at ha
      · cases ha
      · cases ha
        exact ⟨hn, hp⟩
      · cases ha
        exact ⟨hn, hp⟩
      · cases ha
        refine ⟨hn, ?_⟩
        dsimp only
        rw [hp, if_neg nofun]
      · cases ha
        exact ⟨hn, hp⟩
  exact ⟨hkeep.1, by rw [hkeep.2]; nofun⟩

/-- **The cancel of a delayed start**: in every run of every delayed start, a cancel that is about to
return has taken effect (`run()` is not entered any more and the run does not lie in a wait from
then on) if and only if the run is not in the wait past its test of `anyway_notify_`, and not
between its test of `iscanceldelaystart` and `run()`; a cancel that finds the run ended has. -/
theorem cancel_iff {outside_join_ : Bool} {tid : Nat} {r : RunnableReference} {after : Int}
    {periodic : Option Int} {s : Delayed}
    (h : Runs.AnyRun step (began outside_join_ tid r after periodic) s) :
    (s.canceller = .leave → ∃ s', step s .proceed = some s' ∧
      (s'.Cancelled ↔ s.waits = false ∧ s.aboutToRun = false)) ∧
    (s.r.isruning = false → s.Cancelled) := by
  have hi := (began_inv outside_join_ tid r after periodic).run h
  refine ⟨fun hc => ?_, fun hr => ?_⟩
  · refine ⟨{ s with canceller := .idle }, by rw [step, Delayed.proceed, hc], ?_, ?_⟩
    · intro hcan
      constructor
      · rw [Delayed.waits, Bool.or_eq_false_iff, decide_eq_false_iff_not, decide_eq_false_iff_not]
        constructor
        · intro hpc
          have hgo : step { s with canceller := .idle } .go =
              some { s with canceller := .idle, pc := .blocked } := by
            rw [step, Delayed.go]
            dsimp only
            rw [hpc]
          exact (hcan _ (Runs.Run.one trivial hgo)).2 rfl
        · intro hpc
          exact (hcan _ Relation.ReflTransGen.refl).2 hpc
      · rw [Delayed.aboutToRun, decide_eq_false_iff_not]
        intro hpc
        have hgo : step { s with canceller := .idle } .go =
            some { s with canceller := .idle, pc := .running, runs := s.runs + 1 } := by
          rw [step, Delayed.go]
          dsimp only
          rw [hpc]
        have := (hcan _ (Runs.Run.one trivial hgo)).1
        dsimp only at this
        omega
    · rintro ⟨hw, hr⟩
      rw [Delayed.waits, Bool.or_eq_false_iff, decide_eq_false_iff_not,
        decide_eq_false_iff_not] at hw
      rw [Delayed.aboutToRun, decide_eq_false_iff_not] at hr
      exact Over.cancelled
        ⟨hi.flagged (.inr (.inr hc)), hi.notified (.inr hc), hw.1, hw.2, hr, rfl⟩
  · unfold RunnableReference.isruning at hr
    rw [Bool.not_eq_false'] at hr
    exact cancelled_of_ended (hi.ended hr)

/-- a `start_after` cancelled while it waits -/
theorem cancel_iff_waiting : ∃ s : Delayed, s.pc = .clear ∧ s.Cancelled := by
  have h : Runs.AnyRun step (began false 1 {} 1000 none) _ :=
    .of_exec (l := [.go, .go, .go, .go, .cancel, .proceed, .proceed, .proceed]) rfl
  obtain ⟨s', hs, hiff⟩ := (cancel_iff h).1 rfl
  cases hs
  exact ⟨_, rfl, hiff.mpr ⟨rfl, rfl⟩⟩

/-- **Two cancels without effect**: the broadcast comes between the test of `anyway_notify_` and the
wait, which then lasts; and the flag is set behind its last test, and `run()` is entered. -/
theorem cancel_unheard :
    (∃ s : Delayed, Runs.AnyRun step (began false 1 {} 1000 none) s ∧ s.canceller = .idle ∧
      s.r.iscanceldelaystart = true ∧ s.pc = .blocked) ∧
    ∃ s s' : Delayed, Runs.AnyRun step (began false 1 {} 1000 (some 1000)) s ∧ s.canceller = .idle ∧
      s.r.iscanceldelaystart = true ∧ step s .go = some s' ∧ s'.runs = s.runs + 1 := by
  constructor
  · have h : Runs.AnyRun step (began false 1 {} 1000 none) _ :=
      .of_exec (l := [.go, .go, .go, .cancel, .proceed, .proceed, .proceed, .proceed, .go]) rfl
    exact ⟨_, h, rfl, rfl, rfl⟩
  · have h : Runs.AnyRun step (began false 1 {} 1000 (some 1000)) _ :=
      .of_exec (l := [.go, .go, .go, .go, .timeout, .go, .go, .cancel, .proceed, .proceed, .proceed,
        .proceed]) rfl
    exact ⟨_, _, h, rfl, rfl, rfl, rfl⟩

end Thread
