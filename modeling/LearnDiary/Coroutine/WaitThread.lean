import Mathlib.Data.List.Basic

/-!
# `WaitThread` (comm/coroutine/coro_async.h)

A call of `operator ()` posts a resume message with a delay, where it has a time-out, and starts its
thread; the end of the function and `Cancel` take that message back and post one of their own.
Whichever message is dispatched resumes the coroutine.

`Mail` has the resume messages that are posted and those a loop has taken out and not run yet; of
the order and the times in which they come nothing is assumed.  `Stage` says of one call how far it
has come and by which event it ends, and `Rep` when the fields and the messages show that.

* `Rep.arm`                      a call begins;
* `Rep.wake`                     the first event ends it and the others change nothing;
* `Rep.pick`, `Rep.run`          its message is taken out and run.
-/

namespace Coroutine

/-- the values of `status`, and the events that resume -/
inductive Event where
  | kTimeout
  | kFinish
  | kCancel
deriving DecidableEq

/-- the message of `Resume`: its id and its coroutine, and for which call and by which event it was
posted, which the code does not see -/
structure ResumeMsg where
  postid : Nat
  co : Nat
  call : Nat
  event : Event
deriving DecidableEq

structure Mail where
  queue : List ResumeMsg := []
  hands : List ResumeMsg := []
  /-- the next id -/
  next : Nat := 0
deriving DecidableEq

namespace Mail

/-- `Resume`; the id is `next` -/
def resume (m : Mail) (co call : Nat) (event : Event) : Mail :=
  { m with queue := m.queue ++ [⟨m.next, co, call, event⟩], next := m.next + 1 }

/-- `mq::CancelMessage` with an id -/
def cancelMessage (m : Mail) (id : Nat) : Mail × Bool :=
  ({ m with queue := m.queue.eraseP (fun x => x.postid == id) },
    m.queue.any (fun x => x.postid == id))

def pick (m : Mail) (x : ResumeMsg) : Mail :=
  { m with queue := m.queue.erase x, hands := m.hands ++ [x] }

def run (m : Mail) (x : ResumeMsg) : Mail := { m with hands := m.hands.erase x }

end Mail

/-- `none` is `KNullPost` or a null pointer -/
structure Wrapper_ where
  message_timeout : Option Nat := none
  message_running : Option Nat := none
  wrapper : Option Nat := none
  status : Event := .kTimeout
deriving DecidableEq

namespace Wrapper_

/-- `operator ()` up to the start of the thread -/
def arm (w : Wrapper_) (m : Mail) (co call : Nat) (_timeout : Int) : Wrapper_ × Mail :=
  let w := { w with wrapper := some co }
  if 0 ≤ _timeout then
    ({ w with message_timeout := some m.next }, m.resume co call .kTimeout)
  else (w, m)

/-- the end of the callback, with `kFinish`, and `Cancel`, with `kCancel` -/
def wake (w : Wrapper_) (m : Mail) (call : Nat) (event : Event) : Wrapper_ × Mail :=
  match w.wrapper with
  | none => (w, m)
  | some co =>
    if w.message_running ≠ none then (w, m)
    else
      match w.message_timeout with
      | none =>
        ({ w with status := event, message_running := some m.next }, m.resume co call event)
      | some id =>
        let c := m.cancelMessage id
        if c.2 then
          ({ w with status := event, message_running := some c.1.next },
            c.1.resume co call event)
        else (w, c.1)

end Wrapper_

/-! ## the stages of a call -/

/-- no event has come, with a time-out running or not; the message of an event is posted; a loop has
it; it has been run -/
inductive Stage where
  | open_ (timed : Bool)
  | posted (event : Event)
  | handed (event : Event)
  | done (event : Event)
deriving DecidableEq

namespace Stage

def event : Stage → Option Event
  | open_ _ => none
  | posted event | handed event | done event => some event

/-- the end of the function or `Cancel` -/
def wake (st : Stage) (event : Event) : Stage :=
  match st with
  | open_ _ => posted event
  | st => st

def pick : Stage → Option Stage
  | open_ true => some (handed .kTimeout)
  | posted event => some (handed event)
  | _ => none

def run : Stage → Option Stage
  | handed event => some (done event)
  | _ => none

theorem wake_event (st : Stage) (e : Event) : (st.wake e).event ≠ none := by
  cases st <;> exact Option.some_ne_none _

theorem wake_done (st : Stage) (e e' : Event) : st.wake e = .done e' ↔ st = .done e' := by
  cases st with
  | open_ timed =>
    constructor
    · intro h
      cases h
    · intro h
      cases h
  | posted _ | handed _ | done _ => exact Iff.rfl

/-- an event comes to a stage: it is the one that counts, or that was there -/
theorem wake_by {st : Stage} {e e' : Event} (h : (st.wake e).event = some e') :
    e' = e ∨ st.event = some e' := by
  cases st with
  | open_ timed => exact Or.inl (Option.some.inj h).symm
  | posted _ | handed _ | done _ => exact Or.inr h

theorem pick_some {st st' : Stage} (h : st.pick = some st') :
    ∃ e, st' = handed e ∧ ((st = open_ true ∧ e = .kTimeout) ∨ st = posted e) := by
  cases st with
  | open_ timed =>
    cases timed <;> cases h
    exact ⟨_, rfl, Or.inl ⟨rfl, rfl⟩⟩
  | posted e =>
    cases h
    exact ⟨e, rfl, Or.inr rfl⟩
  | handed _ | done _ => cases h

end Stage

/-- a wrapper that leaves the end of a function and `Cancel` without effect, unless it has a time-out
to take back -/
def Wrapper_.Shut (w : Wrapper_) : Prop :=
  w.wrapper = none ∨ w.message_running ≠ none ∨ w.message_timeout ≠ none

/-- the call `call` of coroutine `co` is at the stage -/
def Rep (w : Wrapper_) (m : Mail) (co call : Nat) : Stage → Prop
  | .open_ false => w.wrapper = some co ∧ w.message_running = none ∧ w.status = .kTimeout ∧
      w.message_timeout = none ∧ m.queue = [] ∧ m.hands = []
  | .open_ true => w.wrapper = some co ∧ w.message_running = none ∧ w.status = .kTimeout ∧
      ∃ id, w.message_timeout = some id ∧ m.queue = [⟨id, co, call, .kTimeout⟩] ∧ m.hands = []
  | .posted event => event ≠ .kTimeout ∧ w.message_running ≠ none ∧ w.status = event ∧
      ∃ id, m.queue = [⟨id, co, call, event⟩] ∧ m.hands = []
  | .handed event => w.Shut ∧ w.status = event ∧ (w.message_running = none → event = .kTimeout) ∧
      ∃ id, m.queue = [] ∧ m.hands = [⟨id, co, call, event⟩]
  | .done event => w.Shut ∧ w.status = event ∧ (w.message_running = none → event = .kTimeout) ∧
      m.queue = [] ∧ m.hands = []

section
variable {w : Wrapper_} {m : Mail} {co call : Nat} {st : Stage} {event : Event} {x : ResumeMsg}

theorem wake_hands (w : Wrapper_) (m : Mail) (call : Nat) (event : Event) :
    (w.wake m call event).2.hands = m.hands := by
  unfold Wrapper_.wake
  cases w.wrapper with
  | none => rfl
  | some co =>
    dsimp only
    split
    · rfl
    · cases w.message_timeout with
      | none => rfl
      | some id =>
        dsimp only
        split <;> rfl

theorem wake_running (h : w.message_running ≠ none) : w.wake m call event = (w, m) := by
  unfold Wrapper_.wake
  cases w.wrapper with
  | none => rfl
  | some co => exact if_pos h

theorem cancelMessage_nil (hq : m.queue = []) (id : Nat) : m.cancelMessage id = (m, false) := by
  obtain ⟨queue, hands, next⟩ := m
  subst hq
  rfl

theorem Wrapper_.Shut.wake (h : w.Shut) (hq : m.queue = []) : w.wake m call event = (w, m) := by
  obtain h | h | h := h
  · unfold Wrapper_.wake
    rw [h]
  · exact wake_running h
  · unfold Wrapper_.wake
    cases w.wrapper with
    | none => rfl
    | some co =>
      obtain ⟨id, hid⟩ := Option.ne_none_iff_exists'.mp h
      rw [hid]
      dsimp only
      rw [cancelMessage_nil hq]
      exact ite_self _

/-- **A call begins** on a wrapper whose calls before ended by their time-outs. -/
theorem Rep.arm (hrun : w.message_running = none) (hst : w.status = .kTimeout)
    (hq : m.queue = []) (hh : m.hands = []) {_timeout : Int}
    (ht : _timeout < 0 → w.message_timeout = none) :
    Rep (w.arm m co call _timeout).1 (w.arm m co call _timeout).2 co call
      (.open_ (decide (0 ≤ _timeout))) := by
  unfold Wrapper_.arm
  by_cases h : 0 ≤ _timeout
  · rw [if_pos h, decide_eq_true h]
    refine ⟨rfl, hrun, hst, m.next, rfl, ?_, hh⟩
    show m.queue ++ _ = _
    rw [hq]
    rfl
  · rw [if_neg h, decide_eq_false h]
    exact ⟨rfl, hrun, hst, ht (by omega), hq, hh⟩

theorem resume_nil (hq : m.queue = []) :
    (m.resume co call event).queue = [⟨m.next, co, call, event⟩] := by
  show m.queue ++ _ = _
  rw [hq]
  rfl

/-- **The first event ends a call and the others change nothing.** -/
theorem Rep.wake (h : Rep w m co call st) (hev : event ≠ .kTimeout) :
    Rep (w.wake m call event).1 (w.wake m call event).2 co call (st.wake event) := by
  match st with
  | .open_ false =>
    obtain ⟨hco, hrun, hst, ht, hq, hh⟩ := h
    unfold Wrapper_.wake
    rw [hco, hrun, ht]
    exact ⟨hev, Option.some_ne_none _, rfl, m.next, resume_nil hq, hh⟩
  | .open_ true =>
    obtain ⟨hco, hrun, hst, id, ht, hq, hh⟩ := h
    have hc : m.cancelMessage id = ({ m with queue := [] }, true) := by
      unfold Mail.cancelMessage
      rw [hq]
      simp
    unfold Wrapper_.wake
    rw [hco, hrun, ht]
    dsimp only
    rw [hc]
    exact ⟨hev, Option.some_ne_none _, rfl, m.next, rfl, hh⟩
  | .posted _ =>
    rw [wake_running h.2.1]
    exact h
  | .handed _ =>
    obtain ⟨hshut, hst, hrun, id, hq, hh⟩ := h
    rw [hshut.wake hq]
    exact ⟨hshut, hst, hrun, id, hq, hh⟩
  | .done _ =>
    obtain ⟨hshut, hst, hrun, hq, hh⟩ := h
    rw [hshut.wake hq]
    exact ⟨hshut, hst, hrun, hq, hh⟩

theorem Rep.pick (h : Rep w m co call st) (hx : x ∈ m.queue) :
    x.co = co ∧ x.call = call ∧ ∃ st', st.pick = some st' ∧ Rep w (m.pick x) co call st' := by
  have hone : ∀ y, m.queue = [y] → m.hands = [] → x = y ∧ (m.pick x).queue = [] ∧
      (m.pick x).hands = [y] := by
    intro y hq hh
    rw [hq] at hx
    have hxy := List.mem_singleton.mp hx
    subst hxy
    refine ⟨rfl, ?_, ?_⟩
    · show m.queue.erase x = []
      rw [hq, List.erase_cons_head]
    · show m.hands ++ [x] = [x]
      rw [hh]
      rfl
  match st with
  | .open_ false =>
    rw [h.2.2.2.2.1] at hx
    cases hx
  | .open_ true =>
    obtain ⟨hco, hrun, hst, id, ht, hq, hh⟩ := h
    obtain ⟨rfl, hq', hh'⟩ := hone _ hq hh
    refine ⟨rfl, rfl, _, rfl, Or.inr (Or.inr ?_), hst, fun _ => rfl, id, hq', hh'⟩
    rw [ht]
    exact Option.some_ne_none id
  | .posted _ =>
    obtain ⟨-, hrun, hst, id, hq, hh⟩ := h
    obtain ⟨rfl, hq', hh'⟩ := hone _ hq hh
    exact ⟨rfl, rfl, _, rfl, Or.inr (Or.inl hrun), hst, fun h => absurd h hrun, id, hq', hh'⟩
  | .handed _ =>
    obtain ⟨-, -, -, id, hq, -⟩ := h
    rw [hq] at hx
    cases hx
  | .done _ =>
    rw [h.2.2.2.1] at hx
    cases hx

theorem Rep.run (h : Rep w m co call st) (hx : x ∈ m.hands) :
    x.co = co ∧ x.call = call ∧ st = .handed x.event ∧ Rep w (m.run x) co call (.done x.event) := by
  match st with
  | .open_ false =>
    rw [h.2.2.2.2.2] at hx
    cases hx
  | .open_ true =>
    obtain ⟨-, -, -, id, -, -, hh⟩ := h
    rw [hh] at hx
    cases hx
  | .posted _ =>
    obtain ⟨-, -, -, id, -, hh⟩ := h
    rw [hh] at hx
    cases hx
  | .handed _ =>
    obtain ⟨hshut, hst, hrun, id, hq, hh⟩ := h
    rw [hh] at hx
    obtain rfl := List.mem_singleton.mp hx
    refine ⟨rfl, rfl, rfl, hshut, hst, hrun, hq, ?_⟩
    show m.hands.erase _ = []
    rw [hh, List.erase_cons_head]
  | .done _ =>
    rw [h.2.2.2.2] at hx
    cases hx

end

end Coroutine
