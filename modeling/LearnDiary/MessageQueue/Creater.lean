import LearnDiary.Lib.Runs
import LearnDiary.Thread.Reference
import Mathlib.Logic.Function.Basic

/-!
# `MessageQueueCreater` (comm/messagequeue/message_queue.cc)

Any number of threads call `CreateMessageQueue` and `CancelAndWait` of one object, and the threads
of its queues run beside them.  A queue has the number of its thread, in the order of creation; `0`
is `KInvalidQueueID`.  Of a run loop it is known that it needs its queue in the map and ends only
when its `breakflag` is set.

* `Inv`             who holds `messagequeue_mutex_`, and which thread `thread_` stands for;
* `run_registered`  no run loop starts without its queue;
* `run_cancelled`   when `CancelAndWait` returns, the thread of the queue it broke has ended.
-/

namespace MessageQueueCreater
open Runs
open Thread (RunnableReference)

/-- a caller: a thread of its own, or that of a queue, in one of its handlers -/
inductive Tid (κ : Type) where
  | client (c : κ)
  | queue (n : Nat)
deriving DecidableEq

inductive Loop where
  | none
  /-- before `init` -/
  | created
  /-- at `ScopedLock lock(messagequeue_mutex_)` -/
  | waiting
  /-- at `lock.unlock()` -/
  | locked
  /-- at `RunLoop().Run()` -/
  | entering
  | running
  /-- `ASSERT(0 != id)` has failed -/
  | failed
  /-- before `cleanup` -/
  | released
  | ended
deriving DecidableEq

inductive Pc where
  | idle
  /-- `CreateMessageQueue`: at the lock, at `thread_.isruning()`, at `__CreateMessageQueueInfo` -/
  | create
  | creating
  | registering
  /-- `CancelAndWait`: at the lock, behind it -/
  | cancel
  | cancelling
  /-- behind `lock.unlock()`, with the queue it broke: at `currentthreadid() != thread_.tid()`, in
  `thread_.join()`, at its `tid()`, in `pthread_join` of a thread -/
  | joinTest (m : Nat)
  | join (m : Nat)
  | joinTid (m : Nat)
  | joining (m n : Nat)
deriving DecidableEq

/-- a return; of `CancelAndWait` with the queue it broke -/
inductive Ret where
  | created (id : Nat)
  | cancelled (id : Nat)
deriving DecidableEq

structure State (κ : Type) where
  messagequeue_mutex_ : Option (Tid κ) := none
  messagequeue_id_ : Nat := 0
  thread_ : RunnableReference := {}
  /-- the `breakflag` of the queues in the map -/
  breakflag : Nat → Option Bool := fun _ => none
  loops : Nat → Loop := fun _ => .none
  calls : Tid κ → Pc := fun _ => .idle
  /-- the number of threads created -/
  created : Nat := 0
  /-- the returns, the latest first -/
  log : List (Tid κ × Ret) := []

inductive Act (κ : Type) where
  | create (t : Tid κ)
  | cancel (t : Tid κ)
  /-- a caller goes on; `ok` is whether `pthread_create` succeeds -/
  | go (t : Tid κ) (ok : Bool)
  /-- the thread of a queue goes on -/
  | loop (n : Nat)
  /-- `BreakMessageQueueRunloop` of anyone else -/
  | break_ (id : Nat)

namespace State
variable {κ : Type} [DecidableEq κ]

def goto (s : State κ) (t : Tid κ) (p : Pc) : State κ :=
  { s with calls := Function.update s.calls t p }

def ret (s : State κ) (t : Tid κ) (r : Ret) : State κ := { s.goto t .idle with log := (t, r) :: s.log }

def lock (s : State κ) (t : Tid κ) : State κ := { s with messagequeue_mutex_ := some t }
def unlock (s : State κ) : State κ := { s with messagequeue_mutex_ := none }

def loopTo (s : State κ) (n : Nat) (l : Loop) : State κ :=
  { s with loops := Function.update s.loops n l }

/-- `BreakMessageQueueRunloop` -/
def breakRunloop (s : State κ) (id : Nat) : State κ :=
  { s with breakflag := Function.update s.breakflag id ((s.breakflag id).map fun _ => true) }

/-- `__CreateMessageQueueInfo` -/
def createInfo (s : State κ) (id : Nat) : State κ :=
  { s with breakflag := Function.update s.breakflag id (some ((s.breakflag id).getD false)) }

/-- a handler calls from its run loop -/
def canCall (s : State κ) : Tid κ → Bool
  | .client _ => true
  | .queue n => s.loops n = .running

def call (s : State κ) (t : Tid κ) (p : Pc) : Option (State κ) :=
  if s.canCall t = true ∧ s.calls t = .idle then some (s.goto t p) else none

/-- a caller's next step; `Thread::join` where `ASSERT(!isjoined)` holds -/
def go (s : State κ) (t : Tid κ) (ok : Bool) : Option (State κ) :=
  match s.calls t with
  | .idle => none
  | .create => if s.messagequeue_mutex_ = none then some ((s.lock t).goto t .creating) else none
  | .creating =>
    if s.thread_.isruning then some (s.unlock.ret t (.created s.messagequeue_id_))
    else if ok then
      let n := s.created + 1
      let s := { s with thread_ := s.thread_.start false (some n), created := n }
      some ((s.loopTo n .created).goto t .registering)
    else some ({ s with thread_ := s.thread_.start false none }.unlock.ret t (.created 0))
  | .registering =>
    let id := s.thread_.tid
    some ({ s.createInfo id with messagequeue_id_ := id }.unlock.ret t (.created id))
  | .cancel => if s.messagequeue_mutex_ = none then some ((s.lock t).goto t .cancelling) else none
  | .cancelling =>
    let m := s.messagequeue_id_
    if m = 0 then some (s.unlock.ret t (.cancelled 0))
    else some ({ s.breakRunloop m with messagequeue_id_ := 0 }.unlock.goto t (.joinTest m))
  | .joinTest m =>
    if t = .queue s.thread_.tid then some (s.ret t (.cancelled m)) else some (s.goto t (.join m))
  | .join m =>
    if s.thread_.isjoined then none
    else if t = .queue s.thread_.tid then some (s.ret t (.cancelled m))
    else if s.thread_.isruning then
      some ({ s with thread_ := { s.thread_ with isjoined := true } }.goto t (.joinTid m))
    else some (s.ret t (.cancelled m))
  | .joinTid m => some (s.goto t (.joining m s.thread_.tid))
  | .joining m n => if s.loops n = .ended then some (s.ret t (.cancelled m)) else none

def loop (s : State κ) (n : Nat) : Option (State κ) :=
  match s.loops n with
  | .none => none
  | .created => some ({ s with thread_ := s.thread_.init }.loopTo n .waiting)
  | .waiting =>
    if s.messagequeue_mutex_ = none then some ((s.lock (.queue n)).loopTo n .locked) else none
  | .locked => some (s.unlock.loopTo n .entering)
  | .entering => some (s.loopTo n (if (s.breakflag n).isSome then .running else .failed))
  | .running =>
    if s.calls (.queue n) = .idle ∧ s.breakflag n = some true then
      some ({ s with breakflag := Function.update s.breakflag n none }.loopTo n .released)
    else none
  | .failed => none
  | .released => some ({ s with thread_ := s.thread_.cleanup }.loopTo n .ended)
  | .ended => none

end State

variable {κ : Type}

section
variable [DecidableEq κ]

def step (s : State κ) : Act κ → Option (State κ)
  | .create t => s.call t .create
  | .cancel t => s.call t .cancel
  | .go t ok => s.go t ok
  | .loop n => s.loop n
  | .break_ id => some (s.breakRunloop id)

end

/-! ## what a step does -/

/-- in the part of a call under `messagequeue_mutex_` -/
def Pc.holds : Pc → Bool
  | .creating => true
  | .registering => true
  | .cancelling => true
  | _ => false

/-- the queue a call has broken -/
def Pc.broke : Pc → Option Nat
  | .joinTest m => some m
  | .join m => some m
  | .joinTid m => some m
  | .joining m _ => some m
  | _ => none

section
variable [DecidableEq κ]

/-- the steps of the callers -/
inductive Went (s : State κ) (t : Tid κ) : State κ → Prop
  | lock (p : Pc) (hmutex : s.messagequeue_mutex_ = none)
      (hp : (s.calls t = .create ∧ p = .creating) ∨ (s.calls t = .cancel ∧ p = .cancelling)) :
      Went s t ((s.lock t).goto t p)
  | running (hpc : s.calls t = .creating) (hrun : s.thread_.isended = false) :
      Went s t (s.unlock.ret t (.created s.messagequeue_id_))
  | start (hpc : s.calls t = .creating) (hrun : s.thread_.isended = true) :
      Went s t ((({ s with
        thread_ := s.thread_.start false (some (s.created + 1))
        created := s.created + 1 }).loopTo (s.created + 1) .created).goto t .registering)
  | fail (hpc : s.calls t = .creating) (hrun : s.thread_.isended = true) :
      Went s t (({ s with thread_ := s.thread_.start false none }).unlock.ret t (.created 0))
  | register (hpc : s.calls t = .registering) :
      Went s t (({ s.createInfo s.thread_.tid with messagequeue_id_ := s.thread_.tid }).unlock.ret t
        (.created s.thread_.tid))
  | nothing (hpc : s.calls t = .cancelling) (hid : s.messagequeue_id_ = 0) :
      Went s t (s.unlock.ret t (.cancelled 0))
  | broke (hpc : s.calls t = .cancelling) (hid : s.messagequeue_id_ ≠ 0) :
      Went s t (({ s.breakRunloop s.messagequeue_id_ with messagequeue_id_ := 0 }).unlock.goto t
        (.joinTest s.messagequeue_id_))
  | test (m : Nat) (hpc : s.calls t = .joinTest m) : Went s t (s.goto t (.join m))
  | join (m : Nat) (hpc : s.calls t = .join m) (hrun : s.thread_.isended = false)
      (hjoined : s.thread_.isjoined = false) :
      Went s t (({ s with thread_ := { s.thread_ with isjoined := true } }).goto t (.joinTid m))
  | tid (m : Nat) (hpc : s.calls t = .joinTid m) : Went s t (s.goto t (.joining m s.thread_.tid))
  | own (m : Nat) (hpc : (s.calls t).broke = some m) (ht : t = .queue s.thread_.tid) :
      Went s t (s.ret t (.cancelled m))
  | ended (m : Nat) (hpc : s.calls t = .join m) (hrun : s.thread_.isended = true) :
      Went s t (s.ret t (.cancelled m))
  | joined (m n : Nat) (hpc : s.calls t = .joining m n) (hn : s.loops n = .ended) :
      Went s t (s.ret t (.cancelled m))

end

theorem ended_of_not {r : RunnableReference} (h : ¬ r.isruning = true) : r.isended = true := by
  unfold RunnableReference.isruning at h
  cases hr : r.isended with
  | true => rfl
  | false => exact absurd (by rw [hr]; rfl) h

theorem not_ended_of {r : RunnableReference} (h : r.isruning = true) : r.isended = false := by
  unfold RunnableReference.isruning at h
  cases hr : r.isended with
  | false => rfl
  | true =>
    rw [hr] at h
    cases h

section
variable [DecidableEq κ] {s s' : State κ} {t : Tid κ} {n m : Nat} {ok : Bool}

/-- **What a step of a caller does.** -/
theorem go_went (h : s.go t ok = some s') : Went s t s' := by
  unfold State.go at h
  cases hpc : s.calls t with
  | idle =>
    rw [hpc] at h
    cases h
  | create =>
    rw [hpc] at h
    dsimp only at h
    split at h
    · rename_i hm
      cases h
      exact .lock _ hm (Or.inl ⟨hpc, rfl⟩)
    · cases h
  | creating =>
    rw [hpc] at h
    dsimp only at h
    split at h
    · rename_i hr
      cases h
      exact .running hpc (not_ended_of hr)
    · rename_i hr
      split at h
      · cases h
        exact .start hpc (ended_of_not hr)
      · cases h
        exact .fail hpc (ended_of_not hr)
  | registering =>
    rw [hpc] at h
    cases h
    exact .register hpc
  | cancel =>
    rw [hpc] at h
    dsimp only at h
    split at h
    · rename_i hm
      cases h
      exact .lock _ hm (Or.inr ⟨hpc, rfl⟩)
    · cases h
  | cancelling =>
    rw [hpc] at h
    dsimp only at h
    split at h
    · rename_i hid
      cases h
      exact .nothing hpc hid
    · rename_i hid
      cases h
      exact .broke hpc hid
  | joinTest m =>
    rw [hpc] at h
    dsimp only at h
    split at h
    · rename_i ht
      cases h
      exact .own m (by rw [hpc]; rfl) ht
    · cases h
      exact .test m hpc
  | join m =>
    rw [hpc] at h
    dsimp only at h
    split at h
    · cases h
    · rename_i hj
      split at h
      · rename_i ht
        cases h
        exact .own m (by rw [hpc]; rfl) ht
      · split at h
        · rename_i hr
          cases h
          exact .join m hpc (not_ended_of hr) (Bool.eq_false_iff.mpr hj)
        · rename_i hr
          cases h
          exact .ended m hpc (ended_of_not hr)
  | joinTid m =>
    rw [hpc] at h
    cases h
    exact .tid m hpc
  | joining m n =>
    rw [hpc] at h
    dsimp only at h
    split at h
    · rename_i hn
      cases h
      exact .joined m n hpc hn
    · cases h

end

/-- the steps of the thread of a queue -/
inductive Looped (s : State κ) (n : Nat) : State κ → Prop
  | init (hl : s.loops n = .created) :
      Looped s n (({ s with thread_ := s.thread_.init }).loopTo n .waiting)
  | enter (hl : s.loops n = .waiting) (hm : s.messagequeue_mutex_ = none) :
      Looped s n ((s.lock (.queue n)).loopTo n .locked)
  | leave (hl : s.loops n = .locked) : Looped s n (s.unlock.loopTo n .entering)
  | run (hl : s.loops n = .entering) (hb : (s.breakflag n).isSome = true) :
      Looped s n (s.loopTo n .running)
  | fail (hl : s.loops n = .entering) (hb : (s.breakflag n).isSome = false) :
      Looped s n (s.loopTo n .failed)
  | release (hl : s.loops n = .running) (hidle : s.calls (.queue n) = .idle)
      (hb : s.breakflag n = some true) :
      Looped s n (({ s with breakflag := Function.update s.breakflag n none }).loopTo n .released)
  | cleanup (hl : s.loops n = .released) :
      Looped s n (({ s with thread_ := s.thread_.cleanup }).loopTo n .ended)

theorem loop_looped {s s' : State κ} {n : Nat} (hs : s.loop n = some s') : Looped s n s' := by
  unfold State.loop at hs
  cases hl : s.loops n with
  | none | failed | ended =>
    rw [hl] at hs
    cases hs
  | created =>
    rw [hl] at hs
    cases hs
    exact .init hl
  | waiting =>
    rw [hl] at hs
    dsimp only at hs
    split at hs
    · rename_i hm
      cases hs
      exact .enter hl hm
    · cases hs
  | locked =>
    rw [hl] at hs
    cases hs
    exact .leave hl
  | entering =>
    rw [hl] at hs
    cases hs
    split
    · rename_i hb
      exact .run hl hb
    · rename_i hb
      exact .fail hl (Bool.eq_false_iff.mpr hb)
  | running =>
    rw [hl] at hs
    dsimp only at hs
    split at hs
    · rename_i hg
      cases hs
      exact .release hl hg.1 hg.2
    · cases hs
  | released =>
    rw [hl] at hs
    cases hs
    exact .cleanup hl

/-! ## the invariant -/

/-- a thread that is created and has not run its `cleanup` -/
def Loop.live : Loop → Bool
  | .none => false
  | .ended => false
  | _ => true

/-- a thread that has not seen `messagequeue_mutex_` -/
def Loop.early : Loop → Bool
  | .created => true
  | .waiting => true
  | _ => false

/-- a thread that has, up to the end of its run loop -/
def Loop.served : Loop → Bool
  | .locked => true
  | .entering => true
  | .running => true
  | _ => false

/-- the mutex is held by who is in a part of the code that it protects -/
structure Held (s : State κ) : Prop where
  owner : ∀ t, (s.calls t).holds = true → s.messagequeue_mutex_ = some t
  locked : ∀ n, s.loops n = .locked → s.messagequeue_mutex_ = some (.queue n)
  inside : ∀ n, s.calls (.queue n) ≠ .idle → s.loops n = .running

/-- only the last thread is alive, and `thread_` stands for it -/
structure Alive (s : State κ) : Prop where
  tid : s.thread_.tid = s.created
  live : ∀ n, (s.loops n).live = true → n = s.created ∧ s.thread_.isended = false
  made : ∀ n, s.loops n = .none ↔ n = 0 ∨ s.created < n
  id : s.messagequeue_id_ ≤ s.created

/-- a queue is in the map before its thread sees the mutex, and while it runs -/
structure Mapped (s : State κ) : Prop where
  served : ∀ n, (s.loops n).served = true → (s.breakflag n).isSome = true
  early : ∀ n, (s.loops n).early = true →
    (s.breakflag n).isSome = true ∨ ∃ t, s.calls t = .registering
  unfailed : ∀ n, s.loops n ≠ .failed

/-- the queue a call has broken is not a later one than that it waits for -/
structure Waits (s : State κ) : Prop where
  broke : ∀ t m, (s.calls t).broke = some m → 0 < m ∧ m ≤ s.created
  joining : ∀ t m n, s.calls t = .joining m n → m ≤ n ∧ n ≤ s.created
  log : ∀ t m, (t, .cancelled m) ∈ s.log → m = 0 ∨ t = .queue m ∨ s.loops m = .ended

structure Inv (s : State κ) : Prop extends Held s, Alive s, Mapped s, Waits s

theorem Inv.init : Inv ({} : State κ) where
  owner := fun _ h => by cases h
  locked := fun _ h => by cases h
  inside := fun _ h => absurd rfl h
  tid := rfl
  live := fun _ h => by cases h
  made := fun n => ⟨fun _ => Nat.eq_zero_or_pos n, fun _ => rfl⟩
  id := Nat.le_refl 0
  served := fun _ h => by cases h
  early := fun _ h => by cases h
  unfailed := fun _ h => by cases h
  broke := fun _ _ h => by cases h
  joining := fun _ _ _ h => by cases h
  log := fun _ _ h => by cases h

section
variable {s s' : State κ} {t t' : Tid κ} {n m : Nat} {p : Pc} {l : Loop}

theorem loopTo_self (s : State κ) (n : Nat) (l : Loop) : (s.loopTo n l).loops n = l :=
  Function.update_self ..

theorem loopTo_ne (l : Loop) (h : m ≠ n) : (s.loopTo n l).loops m = s.loops m :=
  Function.update_of_ne h ..

theorem live_of_ne (h0 : l ≠ .none) (h : l ≠ .ended) : l.live = true := by
  cases l with
  | none => exact absurd rfl h0
  | ended => exact absurd rfl h
  | created | waiting | locked | entering | running | failed | released => rfl

/-- a queue that `thread_` does not stand for has ended, and so has its own when it says so -/
theorem Alive.ended (h : Alive s) (h0 : 0 < m) (hm : m ≤ s.created)
    (hne : m = s.created → s.thread_.isended = true) : s.loops m = .ended := by
  by_contra hn
  have hmade : s.loops m ≠ .none := fun he => by
    have := (h.made m).mp he
    omega
  obtain ⟨hc, hrun⟩ := h.live m (live_of_ne hmade hn)
  rw [hne hc] at hrun
  cases hrun

/-! ### the threads of the queues -/

theorem Held.loopTo (h : Held s) (hl : l = .locked → s.messagequeue_mutex_ = some (.queue n))
    (hidle : s.calls (.queue n) = .idle) : Held (s.loopTo n l) where
  owner := h.owner
  locked := by
    intro m hm
    by_cases he : m = n
    · subst he
      rw [loopTo_self] at hm
      exact hl hm
    · rw [loopTo_ne l he] at hm
      exact h.locked m hm
  inside := by
    intro m hm
    by_cases he : m = n
    · subst he
      exact absurd hidle hm
    · rw [loopTo_ne l he]
      exact h.inside m hm

theorem Held.lock (h : Held s) (hm : s.messagequeue_mutex_ = none) (t : Tid κ) :
    Held (s.lock t) := by
  refine ⟨fun t' ht' => ?_, fun n hn => ?_, h.inside⟩
  · have := h.owner t' ht'
    rw [hm] at this
    cases this
  · have := h.locked n hn
    rw [hm] at this
    cases this

theorem Held.idle (h : Held s) (hn : s.loops n ≠ .running) : s.calls (.queue n) = .idle := by
  by_contra hc
  exact hn (h.inside n hc)

theorem Alive.loopTo (h : Alive s) (hn : (s.loops n).live = true) (hl : l ≠ .none) :
    Alive (s.loopTo n l) where
  tid := h.tid
  live := by
    intro m hm
    by_cases he : m = n
    · subst he
      exact h.live m hn
    · rw [loopTo_ne l he] at hm
      exact h.live m hm
  made := by
    intro m
    by_cases he : m = n
    · subst he
      rw [loopTo_self]
      refine ⟨fun h0 => absurd h0 hl, fun h0 => ?_⟩
      rw [(h.made m).mpr h0] at hn
      cases hn
    · rw [loopTo_ne l he]
      exact h.made m
  id := h.id

theorem Mapped.loopTo (h : Mapped s) (hs : l.served = true → (s.breakflag n).isSome = true)
    (he : l.early = true → (s.breakflag n).isSome = true ∨ ∃ t, s.calls t = .registering)
    (hl : l ≠ .failed) : Mapped (s.loopTo n l) where
  served := by
    intro m hm
    by_cases hmn : m = n
    · subst hmn
      rw [loopTo_self] at hm
      exact hs hm
    · rw [loopTo_ne l hmn] at hm
      exact h.served m hm
  early := by
    intro m hm
    by_cases hmn : m = n
    · subst hmn
      rw [loopTo_self] at hm
      exact he hm
    · rw [loopTo_ne l hmn] at hm
      exact h.early m hm
  unfailed := by
    intro m
    by_cases hmn : m = n
    · subst hmn
      rw [loopTo_self]
      exact hl
    · rw [loopTo_ne l hmn]
      exact h.unfailed m

theorem Waits.loopTo (h : Waits s) (hn : s.loops n ≠ .ended) (l : Loop) : Waits (s.loopTo n l) where
  broke := h.broke
  joining := h.joining
  log := by
    intro t m hm
    rcases h.log t m hm with h0 | h0 | h0
    · exact Or.inl h0
    · exact Or.inr (Or.inl h0)
    · have he : m ≠ n := fun he => by
        subst he
        exact hn h0
      rw [loopTo_ne l he]
      exact Or.inr (Or.inr h0)

theorem Inv.loopTo (h : Inv s) (hn : (s.loops n).live = true) (hl : l ≠ .none) (hf : l ≠ .failed)
    (hlock : l = .locked → s.messagequeue_mutex_ = some (.queue n))
    (hidle : s.calls (.queue n) = .idle) (hserved : l.served = true → (s.breakflag n).isSome = true)
    (hearly : l.early = true → (s.breakflag n).isSome = true ∨ ∃ t, s.calls t = .registering) :
    Inv (s.loopTo n l) := by
  have hne : s.loops n ≠ .ended := fun he => by
    rw [he] at hn
    cases hn
  exact ⟨h.toHeld.loopTo hlock hidle, h.toAlive.loopTo hn hl, h.toMapped.loopTo hserved hearly hf,
    h.toWaits.loopTo hne l⟩

/-- **What the step of a queue's thread keeps.** -/
theorem looped_inv (h : Inv s) (hs : Looped s n s') : Inv s' := by
  cases hs with
  | init hl =>
    have hidle := h.idle (n := n) (by rw [hl]; decide)
    have h0 : Inv { s with thread_ := s.thread_.init } :=
      ⟨⟨h.owner, h.locked, h.inside⟩, ⟨h.tid, h.live, h.made, h.id⟩,
        ⟨h.served, h.early, h.unfailed⟩, ⟨h.broke, h.joining, h.log⟩⟩
    exact h0.loopTo (by rw [hl]; rfl) (by decide) (by decide) (fun hc => by cases hc) hidle
      (fun hc => by cases hc) fun _ => h.early n (by rw [hl]; rfl)
  | enter hl hm =>
    have hidle := h.idle (n := n) (by rw [hl]; decide)
    have h0 : Inv (s.lock (.queue n)) := ⟨h.toHeld.lock hm _, ⟨h.tid, h.live, h.made, h.id⟩,
      ⟨h.served, h.early, h.unfailed⟩, ⟨h.broke, h.joining, h.log⟩⟩
    -- no caller is in front of `__CreateMessageQueueInfo`, so the queue is in the map
    have hmap : (s.breakflag n).isSome = true := by
      rcases h.early n (by rw [hl]; rfl) with hb | ⟨t, ht⟩
      · exact hb
      · have := h.owner t (by rw [ht]; rfl)
        rw [hm] at this
        cases this
    exact h0.loopTo (by rw [State.lock, hl]; rfl) (by decide) (by decide) (fun _ => rfl) hidle
      (fun _ => hmap) fun hc => by cases hc
  | leave hl =>
    have hidle := h.idle (n := n) (by rw [hl]; decide)
    have h1 := h.loopTo (n := n) (l := .entering) (by rw [hl]; rfl) (by decide) (by decide)
      (fun hc => by cases hc) hidle (fun _ => h.served n (by rw [hl]; rfl)) fun hc => by cases hc
    have hm := h.locked n hl
    have hheld : Held (s.loopTo n .entering).unlock := by
      refine ⟨fun t ht => ?_, fun m hm' => ?_, h1.inside⟩
      · have ht' : t = .queue n := Option.some.inj ((h.owner t ht).symm.trans hm)
        have hc : (s.calls (.queue n)).holds = true := ht' ▸ ht
        rw [hidle] at hc
        cases hc
      · have hmn : m = n := by
          have := Option.some.inj ((h1.locked m hm').symm.trans hm)
          cases this
          rfl
        subst hmn
        have hloop := loopTo_self s m .entering
        rw [show (s.loopTo m .entering).loops m = .locked from hm'] at hloop
        cases hloop
    exact ⟨hheld, ⟨h1.tid, h1.live, h1.made, h1.id⟩, ⟨h1.served, h1.early, h1.unfailed⟩,
      ⟨h1.broke, h1.joining, h1.log⟩⟩
  | run hl hb =>
    have hidle := h.idle (n := n) (by rw [hl]; decide)
    exact h.loopTo (by rw [hl]; rfl) (by decide) (by decide) (fun hc => by cases hc) hidle
      (fun _ => hb) fun hc => by cases hc
  | fail hl hb =>
    rw [h.served n (by rw [hl]; rfl)] at hb
    cases hb
  | release hl hidle hb =>
    have h1 := h.loopTo (n := n) (l := .released) (by rw [hl]; rfl) (by decide) (by decide)
      (fun hc => by cases hc) hidle (fun hc => by cases hc) fun hc => by cases hc
    have hother : ∀ m, (s.loopTo n .released).loops m ≠ .released →
        Function.update s.breakflag n none m = s.breakflag m := by
      intro m hm
      refine Function.update_of_ne (fun he => hm ?_) ..
      subst he
      exact loopTo_self s m .released
    have hmapped : Mapped { s.loopTo n .released with
        breakflag := Function.update s.breakflag n none } := by
      refine ⟨fun m hm => ?_, fun m hm => ?_, h1.unfailed⟩
      · show (Function.update s.breakflag n none m).isSome = true
        rw [hother m (fun he => by rw [show Loop.served _ = _ from congrArg _ he] at hm; cases hm)]
        exact h1.served m hm
      · show (Function.update s.breakflag n none m).isSome = true ∨ _
        rw [hother m (fun he => by rw [show Loop.early _ = _ from congrArg _ he] at hm; cases hm)]
        exact h1.early m hm
    exact ⟨⟨h1.owner, h1.locked, h1.inside⟩, ⟨h1.tid, h1.live, h1.made, h1.id⟩, hmapped,
      ⟨h1.broke, h1.joining, h1.log⟩⟩
  | cleanup hl =>
    have hidle := h.idle (n := n) (by rw [hl]; decide)
    have hlast := (h.live n (by rw [hl]; rfl)).1
    have h1 := h.loopTo (n := n) (l := .ended) (by rw [hl]; rfl) (by decide) (by decide)
      (fun hc => by cases hc) hidle (fun hc => by cases hc) fun hc => by cases hc
    have halive : Alive { s.loopTo n .ended with thread_ := s.thread_.cleanup } := by
      refine ⟨h1.tid, fun m hm => ?_, h1.made, h1.id⟩
      have hmn : m = n := (h1.live m hm).1.trans hlast.symm
      subst hmn
      rw [show Loop.live _ = _ from congrArg _ (loopTo_self s m .ended)] at hm
      cases hm
    exact ⟨⟨h1.owner, h1.locked, h1.inside⟩, halive, ⟨h1.served, h1.early, h1.unfailed⟩,
      ⟨h1.broke, h1.joining, h1.log⟩⟩

end

section
variable [DecidableEq κ] {s s' : State κ} {t t' : Tid κ} {n m : Nat} {p : Pc} {l : Loop}

theorem goto_self (s : State κ) (t : Tid κ) (p : Pc) : (s.goto t p).calls t = p :=
  Function.update_self ..

theorem goto_ne (p : Pc) (h : t' ≠ t) : (s.goto t p).calls t' = s.calls t' :=
  Function.update_of_ne h ..

/-! ### the mutex -/

theorem Held.goto (h : Held s) (hp : p.holds = true → s.messagequeue_mutex_ = some t)
    (hin : ∀ n, t = .queue n → p ≠ .idle → s.loops n = .running) : Held (s.goto t p) where
  owner := by
    intro t' ht'
    by_cases he : t' = t
    · subst he
      rw [goto_self] at ht'
      exact hp ht'
    · rw [goto_ne p he] at ht'
      exact h.owner t' ht'
  locked := h.locked
  inside := by
    intro n hn
    by_cases he : .queue n = t
    · rw [he, goto_self] at hn
      exact hin n he.symm hn
    · rw [goto_ne p he] at hn
      exact h.inside n hn

theorem Held.enter (h : Held s) (hm : s.messagequeue_mutex_ = none)
    (hin : ∀ n, t = .queue n → s.loops n = .running) : Held ((s.lock t).goto t p) := by
  exact (h.lock hm t).goto (fun _ => rfl) fun n hn _ => hin n hn

theorem Held.leave (h : Held s) (hpc : (s.calls t).holds = true) (hp : p.holds = false) :
    Held (s.unlock.goto t p) := by
  have hm := h.owner t hpc
  have hne : s.calls t ≠ .idle := fun he => by
    rw [he] at hpc
    cases hpc
  refine ⟨fun t' ht' => ?_, fun n hn => ?_, fun n hn => ?_⟩
  · by_cases he : t' = t
    · subst he
      rw [goto_self, hp] at ht'
      cases ht'
    · rw [goto_ne p he] at ht'
      exact absurd (Option.some.inj ((h.owner t' ht').symm.trans hm)) he
  · -- a queue's thread that has the mutex is in no call
    have ht : .queue n = t := Option.some.inj ((h.locked n hn).symm.trans hm)
    have hrun := h.inside n (by rw [ht]; exact hne)
    rw [show s.loops n = .locked from hn] at hrun
    cases hrun
  · by_cases he : .queue n = t
    · exact h.inside n (by rw [he]; exact hne)
    · rw [goto_ne p he] at hn
      exact h.inside n hn

omit [DecidableEq κ] in
theorem breakRunloop_isSome (s : State κ) (id n : Nat) :
    ((s.breakRunloop id).breakflag n).isSome = (s.breakflag n).isSome := by
  by_cases he : n = id
  · rw [he, show State.breakflag _ _ = _ from Function.update_self .., Option.isSome_map]
  · rw [show State.breakflag _ _ = _ from Function.update_of_ne he ..]

omit [DecidableEq κ] in
theorem breakRunloop_inv (h : Inv s) (id : Nat) : Inv (s.breakRunloop id) :=
  ⟨⟨h.owner, h.locked, h.inside⟩, ⟨h.tid, h.live, h.made, h.id⟩,
    ⟨fun n hn => (breakRunloop_isSome s id n).trans (h.served n hn),
      fun n hn => (h.early n hn).imp_left (breakRunloop_isSome s id n).trans, h.unfailed⟩,
    ⟨h.broke, h.joining, h.log⟩⟩

/-! ### the callers -/

theorem Mapped.goto (h : Mapped s) (hpc : s.calls t ≠ .registering) (p : Pc) :
    Mapped (s.goto t p) where
  served := h.served
  early := by
    intro n hn
    rcases h.early n hn with hb | ⟨t', ht'⟩
    · exact Or.inl hb
    · have hne : t' ≠ t := fun he => hpc (he ▸ ht')
      exact Or.inr ⟨t', (goto_ne p hne).trans ht'⟩
  unfailed := h.unfailed

theorem Waits.goto (h : Waits s) (hb : ∀ m, p.broke = some m → 0 < m ∧ m ≤ s.created)
    (hj : ∀ m n, p = .joining m n → m ≤ n ∧ n ≤ s.created) : Waits (s.goto t p) where
  broke := by
    intro t' m hm
    by_cases he : t' = t
    · subst he
      rw [goto_self] at hm
      exact hb m hm
    · rw [goto_ne p he] at hm
      exact h.broke t' m hm
  joining := by
    intro t' m n hmn
    by_cases he : t' = t
    · subst he
      rw [goto_self] at hmn
      exact hj m n hmn
    · rw [goto_ne p he] at hmn
      exact h.joining t' m n hmn
  log := h.log

theorem Waits.goto_quiet (h : Waits s) (hp : p.broke = none) (t : Tid κ) : Waits (s.goto t p) := by
  refine h.goto (fun m hm => ?_) fun m n hmn => ?_
  · rw [hp] at hm
    cases hm
  · rw [hmn] at hp
    cases hp

theorem Inv.ret (h : Inv (s.goto t .idle)) {r : Ret}
    (hr : ∀ m, r = .cancelled m → m = 0 ∨ t = .queue m ∨ s.loops m = .ended) : Inv (s.ret t r) := by
  refine ⟨⟨h.owner, h.locked, h.inside⟩, ⟨h.tid, h.live, h.made, h.id⟩,
    ⟨h.served, h.early, h.unfailed⟩, ⟨h.broke, h.joining, fun t' m hm => ?_⟩⟩
  rcases List.mem_cons.mp hm with he | hm
  · cases he
    exact hr m rfl
  · exact h.log t' m hm

theorem Inv.goto (h : Inv s) (hpc : (s.calls t).broke = some m) (hp : p.holds = false)
    (hb : p.broke = some m ∨ p.broke = none)
    (hj : ∀ m n, p = .joining m n → m ≤ n ∧ n ≤ s.created) : Inv (s.goto t p) := by
  have hne : s.calls t ≠ .idle ∧ s.calls t ≠ .registering := by
    constructor <;> intro he <;> rw [he] at hpc <;> cases hpc
  refine ⟨h.toHeld.goto (fun hc => ?_) fun n hn _ => h.inside n (hn ▸ hne.1),
    ⟨h.tid, h.live, h.made, h.id⟩, h.toMapped.goto hne.2 p, h.toWaits.goto (fun m' hm => ?_) hj⟩
  · rw [hp] at hc
    cases hc
  · rcases hb with hb | hb <;> rw [hb] at hm <;> cases hm
    exact h.broke t m hpc

theorem Inv.leave (h : Inv s) (hpc : (s.calls t).holds = true) (hreg : s.calls t ≠ .registering)
    (hp : p.holds = false) (hb : ∀ m, p.broke = some m → 0 < m ∧ m ≤ s.created)
    (hj : ∀ m n, p = .joining m n → m ≤ n ∧ n ≤ s.created) : Inv (s.unlock.goto t p) :=
  ⟨h.toHeld.leave hpc hp, ⟨h.tid, h.live, h.made, h.id⟩,
    Mapped.goto (s := s.unlock) ⟨h.served, h.early, h.unfailed⟩ hreg p,
    Waits.goto (s := s.unlock) ⟨h.broke, h.joining, h.log⟩ hb hj⟩

theorem Inv.leave_ret (h : Inv s) (hpc : (s.calls t).holds = true)
    (hreg : s.calls t ≠ .registering) {r : Ret} (hr : ∀ m, r = .cancelled m → m = 0) :
    Inv (s.unlock.ret t r) :=
  (h.leave (p := .idle) hpc hreg rfl (fun _ hm => by cases hm) fun _ _ hm => by cases hm).ret
    fun m hm => Or.inl (hr m hm)

theorem Inv.ret_broke (h : Inv s) (hpc : (s.calls t).broke = some m)
    (hm : t = .queue m ∨ s.loops m = .ended) : Inv (s.ret t (.cancelled m)) := by
  refine (h.goto (p := .idle) hpc rfl (Or.inr rfl) fun _ _ hm => by cases hm).ret fun m' hm' => ?_
  cases hm'
  exact Or.inr hm

/-- **What the step of a caller keeps.** -/
theorem went_inv (h : Inv s) (hw : Went s t s') : Inv s' := by
  cases hw with
  | lock p hm hp =>
    have hpc : s.calls t ≠ .idle ∧ s.calls t ≠ .registering ∧ p.broke = none := by
      rcases hp with ⟨hc, rfl⟩ | ⟨hc, rfl⟩ <;> rw [hc] <;> decide
    exact ⟨h.toHeld.enter hm fun n hn => h.inside n (hn ▸ hpc.1), ⟨h.tid, h.live, h.made, h.id⟩,
      Mapped.goto (s := s.lock t) ⟨h.served, h.early, h.unfailed⟩ hpc.2.1 p,
      Waits.goto_quiet (s := s.lock t) ⟨h.broke, h.joining, h.log⟩ hpc.2.2 t⟩
  | running hpc hrun =>
    exact h.leave_ret (by rw [hpc]; rfl) (by rw [hpc]; decide) fun m hm => by cases hm
  | start hpc hrun =>
    have hnew : s.loops (s.created + 1) = .none := (h.made _).mpr (Or.inr (Nat.lt_succ_self _))
    have hidle := h.idle (n := s.created + 1) (by rw [hnew]; decide)
    have ht : t ≠ .queue (s.created + 1) := fun he => by
      rw [← he, hpc] at hidle
      cases hidle
    have hdead : ∀ n, (s.loops n).live = true → False := fun n hn => by
      have := (h.live n hn).2
      rw [hrun] at this
      cases this
    have hheld := h.toHeld.goto (p := .registering) (fun _ => h.owner t (by rw [hpc]; rfl))
      fun n hn _ => h.inside n (by rw [← hn, hpc]; decide)
    have hmapped := h.toMapped.goto (t := t) (by rw [hpc]; decide) .registering
    refine ⟨?_, ⟨rfl, fun n hn => ?_, fun n => ?_, Nat.le_succ_of_le h.id⟩, ?_, ?_⟩
    · have hl := Held.loopTo (n := s.created + 1) (l := .created) hheld (fun hc => by cases hc)
        ((goto_ne _ ht.symm).trans hidle)
      exact ⟨hl.owner, hl.locked, hl.inside⟩
    · change (Function.update s.loops (s.created + 1) Loop.created n).live = true at hn
      by_cases he : n = s.created + 1
      · exact ⟨he, rfl⟩
      · rw [Function.update_of_ne he] at hn
        exact (hdead n hn).elim
    · show Function.update s.loops (s.created + 1) Loop.created n = .none ↔
        n = 0 ∨ s.created + 1 < n
      by_cases he : n = s.created + 1
      · rw [he, Function.update_self]
        exact ⟨fun hc => (by cases hc), fun hc => (by omega)⟩
      · rw [Function.update_of_ne he, h.made n]
        omega
    · have hl := Mapped.loopTo (n := s.created + 1) (l := .created) hmapped (fun hc => by cases hc)
        (fun _ => Or.inr ⟨t, goto_self s t _⟩) (by decide)
      exact ⟨hl.served, hl.early, hl.unfailed⟩
    · have hw := h.toWaits.goto_quiet (p := .registering) rfl t
      have hw' := Waits.loopTo (n := s.created + 1) hw (by
        show s.loops _ ≠ _
        rw [hnew]
        decide) .created
      refine ⟨fun t' m hm => ?_, fun t' m n hmn => ?_, hw'.log⟩
      · have := hw'.broke t' m hm
        exact ⟨this.1, Nat.le_succ_of_le this.2⟩
      · have := hw'.joining t' m n hmn
        exact ⟨this.1, Nat.le_succ_of_le this.2⟩
  | fail hpc hrun =>
    have h0 : Inv { s with thread_ := s.thread_.start false none } := by
      refine ⟨⟨h.owner, h.locked, h.inside⟩, ⟨h.tid, fun n hn => ?_, h.made, h.id⟩,
        ⟨h.served, h.early, h.unfailed⟩, ⟨h.broke, h.joining, h.log⟩⟩
      have := (h.live n hn).2
      rw [hrun] at this
      cases this
    exact h0.leave_ret (by rw [hpc]; rfl) (by rw [hpc]; decide) fun m hm => by cases hm
  | register hpc =>
    have hmap : ∀ n, (s.breakflag n).isSome = true ∨ n = s.thread_.tid →
        ((s.createInfo s.thread_.tid).breakflag n).isSome = true := by
      intro n hn
      by_cases he : n = s.thread_.tid
      · rw [he, show State.breakflag _ _ = _ from Function.update_self ..]
        rfl
      · rw [show State.breakflag _ _ = _ from Function.update_of_ne he ..]
        exact hn.resolve_right he
    refine Inv.ret (r := .created s.thread_.tid) (s := ({ s.createInfo s.thread_.tid with
      messagequeue_id_ := s.thread_.tid }).unlock) ?_ fun m hm => by cases hm
    have hheld := h.toHeld.leave (p := .idle) (by rw [hpc]; rfl) rfl
    refine ⟨⟨hheld.owner, hheld.locked, hheld.inside⟩,
      ⟨h.tid, h.live, h.made, Nat.le_of_eq h.tid⟩, ⟨fun n hn => ?_, fun n hn => ?_, h.unfailed⟩, ?_⟩
    · exact hmap n (Or.inl (h.served n hn))
    · -- the last thread is the only one that can still wait for the mutex
      have hlive : (s.loops n).live = true := by
        change (s.loops n).early = true at hn
        cases hl : s.loops n <;> rw [hl] at hn <;> first | rfl | cases hn
      exact Or.inl (hmap n (Or.inr ((h.live n hlive).1.trans h.tid.symm)))
    · have hw := h.toWaits.goto_quiet (p := .idle) rfl t
      exact ⟨hw.broke, hw.joining, hw.log⟩
  | nothing hpc hid =>
    refine h.leave_ret (by rw [hpc]; rfl) (by rw [hpc]; decide) fun m hm => ?_
    cases hm
    rfl
  | broke hpc hid =>
    have h1 := breakRunloop_inv h s.messagequeue_id_
    have h0 : Inv { s.breakRunloop s.messagequeue_id_ with messagequeue_id_ := 0 } :=
      ⟨⟨h1.owner, h1.locked, h1.inside⟩, ⟨h1.tid, h1.live, h1.made, Nat.zero_le _⟩,
        ⟨h1.served, h1.early, h1.unfailed⟩, ⟨h1.broke, h1.joining, h1.log⟩⟩
    have hholds : (s.calls t).holds = true := by
      rw [hpc]
      rfl
    have hreg : s.calls t ≠ .registering := by
      rw [hpc]
      decide
    refine h0.leave hholds hreg rfl (fun m hm => ?_) fun _ _ hm => by cases hm
    cases hm
    exact ⟨Nat.pos_of_ne_zero hid, h.id⟩
  | test m hpc => exact h.goto (by rw [hpc]; rfl) rfl (Or.inl rfl) fun _ _ hm => by cases hm
  | join m hpc hrun hj =>
    have h0 : Inv { s with thread_ := { s.thread_ with isjoined := true } } :=
      ⟨⟨h.owner, h.locked, h.inside⟩, ⟨h.tid, h.live, h.made, h.id⟩,
        ⟨h.served, h.early, h.unfailed⟩, ⟨h.broke, h.joining, h.log⟩⟩
    exact h0.goto (by rw [hpc]; rfl) rfl (Or.inl rfl) fun _ _ hm => by cases hm
  | tid m hpc =>
    have hb := h.broke t m (by rw [hpc]; rfl)
    refine h.goto (m := m) (by rw [hpc]; rfl) rfl (Or.inl rfl) fun m' n hm => ?_
    cases hm
    rw [h.tid]
    exact ⟨hb.2, Nat.le_refl _⟩
  | own m hpc ht =>
    obtain ⟨h0, hm⟩ := h.broke t m hpc
    refine h.ret_broke hpc ?_
    by_cases he : m = s.created
    · exact Or.inl (by rw [ht, h.tid, he])
    · exact Or.inr (h.toAlive.ended h0 hm fun hc => absurd hc he)
  | ended m hpc hrun =>
    obtain ⟨h0, hm⟩ := h.broke t m (by rw [hpc]; rfl)
    exact h.ret_broke (by rw [hpc]; rfl) (Or.inr (h.toAlive.ended h0 hm fun _ => hrun))
  | joined m n hpc hn =>
    obtain ⟨h0, hm⟩ := h.broke t m (by rw [hpc]; rfl)
    obtain ⟨hmn, hnc⟩ := h.joining t m n hpc
    refine h.ret_broke (by rw [hpc]; rfl) (Or.inr ?_)
    by_cases he : m = n
    · rw [he]
      exact hn
    · exact h.toAlive.ended h0 hm fun hc => by omega

end

section
variable [DecidableEq κ] {s s' : State κ} {t : Tid κ} {a : Act κ} {n m id : Nat} {p : Pc}

/-! ### all steps -/

theorem call_some (hs : s.call t p = some s') :
    s.canCall t = true ∧ s.calls t = .idle ∧ s' = s.goto t p := by
  unfold State.call at hs
  split at hs
  · rename_i hc
    cases hs
    exact ⟨hc.1, hc.2, rfl⟩
  · cases hs

theorem call_inv (h : Inv s) (hp : p.holds = false) (hb : p.broke = none)
    (hs : s.call t p = some s') : Inv s' := by
  obtain ⟨hcan, hidle, rfl⟩ := call_some hs
  refine ⟨h.toHeld.goto (fun hc => ?_) fun n hn _ => ?_, ⟨h.tid, h.live, h.made, h.id⟩,
    h.toMapped.goto (by rw [hidle]; decide) p, h.toWaits.goto_quiet hb t⟩
  · rw [hp] at hc
    cases hc
  · subst hn
    exact of_decide_eq_true hcan

theorem step_inv (h : Inv s) (hs : step s a = some s') : Inv s' := by
  cases a with
  | create t => exact call_inv h rfl rfl hs
  | cancel t => exact call_inv h rfl rfl hs
  | go t ok => exact went_inv h (go_went hs)
  | loop n => exact looped_inv h (loop_looped hs)
  | break_ id =>
    cases hs
    exact breakRunloop_inv h id

theorem run_inv (h : AnyRun step ({} : State κ) s) : Inv s :=
  h.keep (fun _ _ _ hi _ hs => step_inv hi hs) .init

def serving : List (Act Unit) :=
  [.create (.client ()), .go (.client ()) true, .go (.client ()) true, .go (.client ()) true,
    .loop 1, .loop 1, .loop 1, .loop 1]

def closing : List (Act Unit) :=
  [.cancel (.client ()), .go (.client ()) true, .go (.client ()) true, .go (.client ()) true,
    .go (.client ()) true, .go (.client ()) true, .loop 1, .loop 1, .go (.client ()) true]

/-- **No run loop starts without its queue**: `ASSERT(0 != id)` holds, and a thread in its run loop
has its queue in the map. -/
theorem run_registered (h : AnyRun step ({} : State κ) s) (n : Nat) :
    s.loops n ≠ .failed ∧ (s.loops n = .running → (s.breakflag n).isSome = true) :=
  ⟨(run_inv h).unfailed n, fun hn => (run_inv h).served n (by rw [hn]; rfl)⟩

theorem run_registered_once :
    ∃ s, exec step ({} : State Unit) serving = some s ∧ (s.breakflag 1).isSome = true :=
  ⟨_, rfl, (run_registered (Run.of_exec (l := serving) rfl) 1).2 rfl⟩

/-- **When `CancelAndWait` returns**, the thread of the queue it broke has ended, unless it is the
caller. -/
theorem run_cancelled (h : AnyRun step ({} : State κ) s) (hm : (t, .cancelled m) ∈ s.log) :
    m = 0 ∨ t = .queue m ∨ s.loops m = .ended :=
  (run_inv h).log t m hm

theorem run_cancelled_once :
    ∃ s, exec step ({} : State Unit) (serving ++ closing) = some s ∧ s.loops 1 = .ended :=
  ⟨_, rfl, ((run_cancelled (t := .client ()) (m := 1) (Run.of_exec (l := serving ++ closing) rfl)
    List.mem_cons_self).resolve_left (by decide)).resolve_left (by decide)⟩

end

end MessageQueueCreater
