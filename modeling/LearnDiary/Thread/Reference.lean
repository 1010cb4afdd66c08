import Mathlib.Logic.Basic
import Mathlib.Algebra.Group.Int.Defs

/-!
# `Thread` and its `RunnableReference` (comm/unix/thread/thread.h)

What the calls of a `Thread` do to the data it shares with its run, under `splock`.  A handle is a
number that `pthread_create` has not given before; `0` stands for none.
-/

namespace Thread

def LONG_MAX : Int := 2 ^ 63 - 1

structure RunnableReference where
  /-- the `Thread` holds a reference -/
  count : Nat := 1
  tid : Nat := 0
  isjoined : Bool := false
  isended : Bool := true
  aftertime : Int := LONG_MAX
  periodictime : Int := LONG_MAX
  iscanceldelaystart : Bool := false
  /-- `condtime.anyway_notify_` -/
  anyway_notify_ : Bool := false
  isinthread : Bool := false
deriving DecidableEq

namespace RunnableReference

def isruning (r : RunnableReference) : Bool := !r.isended

/-- the handle that `start` and the destructor detach -/
def detaches (r : RunnableReference) : List Nat :=
  if 0 ≠ r.tid ∧ !r.isjoined then [r.tid] else []

/-- `pthread_create`: it stores the handle of the new thread, or fails and leaves `tid` as it is -/
def create (r : RunnableReference) (created : Option Nat) : RunnableReference :=
  match created with
  | some tid => { r with tid := tid }
  | none => { r with isended := true, count := r.count - 1 }

/-- `start` of a `Thread` that is not running, behind the detach -/
def start (outside_join_ : Bool) (created : Option Nat) (r : RunnableReference) :
    RunnableReference :=
  { r with isended := false, isjoined := outside_join_, count := r.count + 1 }.create created

/-- `start_after` -/
def start_after (outside_join_ : Bool) (after : Int) (created : Option Nat)
    (r : RunnableReference) : RunnableReference :=
  let r := { r with
    anyway_notify_ := false, isjoined := outside_join_, isended := false, aftertime := after,
    iscanceldelaystart := false, count := r.count + 1 }.create created
  if created.isNone then { r with aftertime := LONG_MAX } else r

/-- `start_periodic` -/
def start_periodic (outside_join_ : Bool) (after periodic : Int) (created : Option Nat)
    (r : RunnableReference) : RunnableReference :=
  let r := { r with
    anyway_notify_ := false, isended := false, isjoined := outside_join_,
    iscanceldelaystart := false, aftertime := after, periodictime := periodic,
    count := r.count + 1 }.create created
  if created.isNone then { r with aftertime := LONG_MAX, periodictime := LONG_MAX } else r

/-- `init`, the first step of a run -/
def init (r : RunnableReference) : RunnableReference := { r with isinthread := true }

/-- `cleanup`, the end of a run -/
def cleanup (r : RunnableReference) : RunnableReference :=
  { r with isinthread := false, isended := true, count := r.count - 1 }

end RunnableReference

/-- the three ways to start a `Thread` -/
inductive Start where
  | start
  | start_after (after : Int)
  | start_periodic (after periodic : Int)
deriving DecidableEq

def Start.apply (outside_join_ : Bool) (created : Option Nat) (r : RunnableReference) :
    Start → RunnableReference
  | .start => r.start outside_join_ created
  | .start_after after => r.start_after outside_join_ after created
  | .start_periodic after periodic => r.start_periodic outside_join_ after periodic created

section
variable {outside_join_ : Bool} {h : Nat} {r : RunnableReference} {k : Start}

/-! ## what the ways to start have in common -/

theorem apply_isjoined (created : Option Nat) :
    (k.apply outside_join_ created r).isjoined = outside_join_ := by
  cases k <;> cases created <;> rfl

theorem apply_tid_some : (k.apply outside_join_ (some h) r).tid = h := by
  cases k <;> rfl

theorem apply_tid_none : (k.apply outside_join_ none r).tid = r.tid := by
  cases k <;> rfl

theorem apply_isended_none : (k.apply outside_join_ none r).isended = true := by
  cases k <;> rfl

end
end Thread
