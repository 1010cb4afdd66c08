import LearnDiary.Base.Bytes
import LearnDiary.Socket.SocketPoll

/-!
# `Multiplexing` (comm/coroutine/coro_socket.cc)

Threads that call `Add` and the thread that calls `Run` round after round.  A round collects the
tasks under `mutex_`, polls for all of them, and reports to each of them under `mutex_`; each task
of a loop is a step.  `mutex_` is held over several steps by `Add` and by the two loops.  `Resume`
posts a message and returns.

* `step_effect`   what a step does.
-/

namespace SocketPoll

/-- `Poll` before its breaker is cleared -/
def waits (s : SocketPoll) (o : PollOutcome) : Option SocketPoll :=
  ({ s with autoclear_ := false }.poll o 0).map fun p : SocketPoll =>
    { p with autoclear_ := s.autoclear_ }

def breakerFD (s : SocketPoll) : Int := s.breaker_.pipes_.1

end SocketPoll

namespace Coroutine.Multiplexing
open Runs

/-- `id` is the number of its `Add`, `since` that of the rounds that had begun -/
structure TaskInfo where
  wrapper_ : Nat
  poll_ : SocketPoll
  abs_timeout_ : Nat
  id : Nat
  since : Nat

namespace TaskInfo

def fds (t : TaskInfo) : List Int := t.poll_.fds

/-- `abs_timeout_.isValid()` -/
def isValid (t : TaskInfo) : Bool := t.abs_timeout_ != 0

/-- `-abs_timeout_.gettickspan()` -/
def left (t : TaskInfo) (now : Nat) : Int := (t.abs_timeout_ : Int) - now

end TaskInfo

/-- where the thread that calls `Run` stands -/
inductive Pc where
  | idle
  /-- the events are cleared -/
  | before (_timeout : Int)
  /-- in the loop of `__Before`, at the task with that index -/
  | collect (k : Nat) (_timeout : Int)
  | poll (msec : Int)
  /-- `Poll` has still to clear the breaker -/
  | clear
  | after
  /-- in the loop of `__After` -/
  | report (k : Nat)
deriving DecidableEq

structure State where
  poll_ : SocketPoll
  tasks_ : List TaskInfo := []
  /-- a call of `Add` holds `mutex_`, with its `Break` to come -/
  adding : Bool := false
  pc : Pc := .idle
  clock : Nat
  /-- the rounds that have begun -/
  round : Nat := 0
  /-- the calls of `Add` -/
  added : Nat := 0
  /-- the tasks of the round, with the time that was left when they were collected -/
  collected : List (TaskInfo × Int) := []
  resumed : List TaskInfo := []

inductive Act where
  /-- `Add` of a task that `__Coro_Poll` made at `now`, up to its `Break` -/
  | Add (wrapper_ : Nat) (_socket_poll : SocketPoll) (_msec : Int) (now : Nat)
  | poke
  /-- `RunloopCond::Notify` -/
  | Notify
  /-- what `RunloopCond::Wait` does before its `Run` -/
  | Clear (ret : Int)
  | Run (_timeout : Int)
  /-- `ScopedLock lock(mutex_)` -/
  | lock
  /-- the next task of a loop, or its end; `ret` is what a `read` gives -/
  | go (ret : Int)
  | poll (o : PollOutcome)
  | clear (ret : Int)
  | tick (n : Nat)

/-- the time-out of the round behind a task -/
def merge (_timeout : Int) (t : TaskInfo) (now : Nat) : Int :=
  if t.isValid then
    let diff := t.left now
    if diff ≤ 0 then 0 else if _timeout < 0 then toInt32 diff else min _timeout (toInt32 diff)
  else _timeout

/-- what the system's `poll` can give: it says that the breaker is readable exactly where it is, and
that nothing is ready only where there is a time-out -/
def possible (p : SocketPoll) (msec : Int) : PollOutcome → Bool
  | .error _ => true
  | .ready rs => ((rs.headD 0 &&& POLLIN != 0) == p.breaker_.readable) &&
      (decide (0 ≤ msec) || rs.any (· != 0))

namespace State

def fd (s : State) : Int := s.poll_.breakerFD

/-- `mutex_` is free -/
def free (s : State) : Bool :=
  match s.pc with
  | .collect _ _ | .report _ => false
  | _ => !s.adding

def add (s : State) (wrapper_ : Nat) (_socket_poll : SocketPoll) (abs_timeout_ : Nat) : State :=
  { s with
    tasks_ := s.tasks_ ++ [⟨wrapper_, _socket_poll, abs_timeout_, s.added, s.round⟩]
    added := s.added + 1
    adding := true }

/-- a `Break` whose `write` succeeds -/
def poke (s : State) (adding : Bool) : State :=
  { s with poll_ := { s.poll_ with breaker_ := (s.poll_.breaker_.break_ 1).1 }, adding }

def clear (s : State) (ret : Int) : State :=
  { s with poll_ := { s.poll_ with breaker_ := (s.poll_.breaker_.clear ret).1 } }

/-- `Run` up to the lock of `__Before` -/
def begin (s : State) (poll_ : SocketPoll) (_timeout : Int) : State :=
  { s with poll_, pc := .before _timeout, round := s.round + 1, collected := [] }

def goto (s : State) (pc : Pc) : State := { s with pc }

def collect (s : State) (poll_ : SocketPoll) (k : Nat) (_timeout : Int) (t : TaskInfo) : State :=
  { s with
    poll_
    pc := .collect (k + 1) (merge _timeout t s.clock)
    collected := s.collected ++ [(t, t.left s.clock)] }

def polled (s : State) (poll_ : SocketPoll) : State := { s with poll_, pc := .clear }

/-- `Poll` clears its breaker -/
def cleared (s : State) (ret : Int) : State := { s with poll_ := s.poll_.autoclear ret, pc := .after }

/-- `erase` and `Resume` -/
def resume (s : State) (k : Nat) (t : TaskInfo) (poll_ : SocketPoll) : State :=
  { s with tasks_ := s.tasks_.eraseIdx k, resumed := s.resumed ++ [{ t with poll_ }] }

def keep (s : State) (k : Nat) (t : TaskInfo) (poll_ : SocketPoll) : State :=
  { s with tasks_ := s.tasks_.set k { t with poll_ }, pc := .report (k + 1) }

/-- the time-out that `Poll` takes -/
def msec (_timeout : Int) : Int := if _timeout < -1 then 0 else _timeout

/-- the time that is left to a task for `ConsignReport` -/
def remaining (s : State) (t : TaskInfo) : Int := if t.isValid then t.left s.clock else 1

end State

def step (s : State) : Act → Option State
  | .Add wrapper_ _socket_poll _msec now =>
    if s.free ∧ _msec ≤ 2147483647 ∧ now ≤ s.clock then
      some (s.add wrapper_ _socket_poll (if 0 ≤ _msec then now + _msec.toNat else 0))
    else none
  | .poke => if s.adding then some (s.poke false) else none
  | .Notify => some (s.poke s.adding)
  | .Clear ret =>
    match s.pc with
    | .idle => if s.poll_.breaker_.canRead ret then some (s.clear ret) else none
    | _ => none
  | .Run _timeout =>
    match s.pc with
    | .idle => s.poll_.clearEvent.map (s.begin · _timeout)
    | _ => none
  | .lock =>
    match s.pc, s.adding with
    | .before _timeout, false => some (s.goto (.collect 0 _timeout))
    | .after, false => some (s.goto (.report 0))
    | _, _ => none
  | .go ret =>
    match s.pc with
    | .collect k _timeout =>
      match s.tasks_[k]? with
      | some t => (s.poll_.consign t.poll_ false).map fun r => s.collect r.1 k _timeout t
      | none => some (s.goto (.poll (State.msec _timeout)))
    | .report k =>
      match s.tasks_[k]? with
      | some t => (s.poll_.consignReport t.poll_ (s.remaining t) ret).map fun r =>
          if r.2 then s.resume k t r.1 else s.keep k t r.1
      | none => some (s.goto .idle)
    | _ => none
  | .poll o =>
    match s.pc with
    | .poll msec => if possible s.poll_ msec o then (s.poll_.waits o).map s.polled else none
    | _ => none
  | .clear ret =>
    match s.pc with
    | .clear => if s.poll_.breaker_.canRead ret then some (s.cleared ret) else none
    | _ => none
  | .tick n => some { s with clock := s.clock + n }

/-- a new object whose breaker has the pipe `p`, `q` -/
def State.new (p q clock : Nat) : State :=
  { poll_ := .new (.new (.made p q)) true, clock }

/-- the tasks use distinct descriptors; a poll's first is that of its breaker -/
def Distinct (s : State) : Act → Prop
  | .Add _ _socket_poll _ _ => _socket_poll.fds ≠ [] ∧
      (s.fd :: (s.tasks_.flatMap TaskInfo.fds ++ _socket_poll.fds)).Nodup
  | _ => True

/-! ## steps -/

inductive Effect (s : State) : Act → State → Prop
  | adds {wrapper_ : Nat} {p : SocketPoll} {_msec : Int} {now abs_timeout_ : Nat} : s.free = true →
    abs_timeout_ ≤ s.clock + 2147483647 →
    Effect s (.Add wrapper_ p _msec now) (s.add wrapper_ p abs_timeout_)
  | pokes {a : Act} {adding : Bool} : (adding = s.adding ∨ s.adding = true ∧ adding = false) →
    Effect s a (s.poke adding)
  | clears {ret : Int} : s.pc = .idle → Effect s (.Clear ret) (s.clear ret)
  | begins {_timeout : Int} {p : SocketPoll} : s.pc = .idle → s.poll_.clearEvent = some p →
    Effect s (.Run _timeout) (s.begin p _timeout)
  | locks {_timeout : Int} : s.pc = .before _timeout → s.adding = false →
    Effect s .lock (s.goto (.collect 0 _timeout))
  | collects {ret : Int} {k : Nat} {_timeout : Int} {t : TaskInfo} {p : SocketPoll} {ok : Bool} :
    s.pc = .collect k _timeout → s.tasks_[k]? = some t → s.poll_.consign t.poll_ false = some (p, ok) →
    Effect s (.go ret) (s.collect p k _timeout t)
  | collected {ret : Int} {k : Nat} {_timeout : Int} : s.pc = .collect k _timeout →
    s.tasks_[k]? = none → Effect s (.go ret) (s.goto (.poll (State.msec _timeout)))
  | polls {msec : Int} {o : PollOutcome} {p : SocketPoll} : s.pc = .poll msec →
    s.poll_.waits o = some p → Effect s (.poll o) (s.polled p)
  | cleared {ret : Int} : s.pc = .clear → Effect s (.clear ret) (s.cleared ret)
  | turns : s.pc = .after → s.adding = false → Effect s .lock (s.goto (.report 0))
  | resumes {ret : Int} {k : Nat} {t : TaskInfo} {c : SocketPoll} : s.pc = .report k →
    s.tasks_[k]? = some t → s.poll_.consignReport t.poll_ (s.remaining t) ret = some (c, true) →
    Effect s (.go ret) (s.resume k t c)
  | keeps {ret : Int} {k : Nat} {t : TaskInfo} {c : SocketPoll} : s.pc = .report k →
    s.tasks_[k]? = some t → s.poll_.consignReport t.poll_ (s.remaining t) ret = some (c, false) →
    Effect s (.go ret) (s.keep k t c)
  | ends {ret : Int} {k : Nat} : s.pc = .report k → s.tasks_[k]? = none →
    Effect s (.go ret) (s.goto .idle)
  | ticks {n : Nat} : Effect s (.tick n) { s with clock := s.clock + n }

variable {s s' : State} {a : Act}

theorem go_effect {ret : Int} (hs : step s (.go ret) = some s') : Effect s (.go ret) s' := by
  rw [step] at hs
  split at hs
  · rename_i k _timeout hpc
    split at hs
    · rename_i t ht
      obtain ⟨⟨p, ok⟩, hp, he⟩ := Option.map_eq_some_iff.mp hs
      cases he
      exact .collects hpc ht hp
    · rename_i ht
      cases hs
      exact .collected hpc ht
  · rename_i k hpc
    split at hs
    · rename_i t ht
      obtain ⟨⟨c, done⟩, hc, he⟩ := Option.map_eq_some_iff.mp hs
      cases done with
      | true =>
        cases he
        exact .resumes hpc ht hc
      | false =>
        cases he
        exact .keeps hpc ht hc
    · rename_i ht
      cases hs
      exact .ends hpc ht
  · cases hs

theorem step_effect (hs : step s a = some s') : Effect s a s' := by
  cases a with
  | Add wrapper_ p _msec now =>
    obtain ⟨⟨hf, hm, hn⟩, he⟩ := Option.ite_none_right_eq_some.mp hs
    cases he
    refine .adds hf ?_
    split_ifs <;> omega
  | poke =>
    obtain ⟨ha, he⟩ := Option.ite_none_right_eq_some.mp hs
    cases he
    exact .pokes (.inr ⟨ha, rfl⟩)
  | Notify =>
    cases hs
    exact .pokes (.inl rfl)
  | Clear ret =>
    rw [step] at hs
    split at hs
    · rename_i hpc
      obtain ⟨-, he⟩ := Option.ite_none_right_eq_some.mp hs
      cases he
      exact .clears hpc
    · cases hs
  | Run _timeout =>
    rw [step] at hs
    split at hs
    · rename_i hpc
      obtain ⟨p, hp, he⟩ := Option.map_eq_some_iff.mp hs
      cases he
      exact .begins hpc hp
    · cases hs
  | lock =>
    rw [step] at hs
    split at hs
    · rename_i hpc ha
      cases hs
      exact .locks hpc ha
    · rename_i hpc ha
      cases hs
      exact .turns hpc ha
    · cases hs
  | go ret => exact go_effect hs
  | poll o =>
    rw [step] at hs
    split at hs
    · rename_i msec hpc
      obtain ⟨-, he⟩ := Option.ite_none_right_eq_some.mp hs
      obtain ⟨p, hp, he⟩ := Option.map_eq_some_iff.mp he
      cases he
      exact .polls hpc hp
    · cases hs
  | clear ret =>
    rw [step] at hs
    split at hs
    · rename_i hpc
      obtain ⟨-, he⟩ := Option.ite_none_right_eq_some.mp hs
      cases he
      exact .cleared hpc
    · cases hs
  | tick n =>
    cases hs
    exact .ticks

end Coroutine.Multiplexing
