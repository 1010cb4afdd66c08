import LearnDiary.Lib.Runs
import Mathlib.Data.Nat.Notation

/-!
# `SocketBreaker` (comm/unix/socket/socketbreaker.cc)

A breaker is a pipe whose read end stands in a `poll`, and a flag that says a byte was put into it.
What the system calls give is part of the step; a call on the open pipe gives what POSIX says of a
non-blocking one, and a number left over from a closed pipe may by then be that of another file.

* `Wakes`           a breaker that counts as broken has a byte in its open pipe;
* `step_wakes`      every step keeps it but a new pipe under a set flag;
* `wakes_iff`       so a run keeps it throughout exactly when it makes no such pipe;
* `break_readable`  then a `Break` that says yes has made the open pipe readable.
-/

/-- `unread` is what the pipe holds whose two numbers stand in `pipes_`, none where it is not open -/
structure SocketBreaker where
  pipes_ : Int × Int := (-1, -1)
  create_success_ : Bool := true
  broken_ : Bool := false
  unread : Option Nat := none
deriving DecidableEq

namespace SocketBreaker
open Runs

/-- how the calls of `ReCreate` go: the first that fails, or the two ends of a pipe -/
inductive PipeCalls where
  | pipe
  | getfl
  | setfl
  | made (fd0 fd1 : Nat)
deriving DecidableEq

def reCreate (s : SocketBreaker) : PipeCalls → SocketBreaker × Bool
  | .made fd0 fd1 => ({ s with pipes_ := (fd0, fd1), create_success_ := true, unread := some 0 }, true)
  | .pipe | .getfl | .setfl =>
    ({ s with pipes_ := (-1, -1), create_success_ := false, unread := none }, false)

/-- what `write` of one byte to `pipes_[1]` can give -/
def canWrite (s : SocketBreaker) (ret : Int) : Bool :=
  match s.unread with
  | some _ => ret < 0 || ret == 1
  | none => ret < 0 || (0 ≤ s.pipes_.2 && ret ≤ 1)

/-- what `read` of at most 128 bytes from `pipes_[0]` can give; the end of the file is not seen while
the other end is open -/
def canRead (s : SocketBreaker) (ret : Int) : Bool :=
  match s.unread with
  | some n => ret < 0 || (0 < ret && ret ≤ n && ret ≤ 128)
  | none => ret < 0 || (0 ≤ s.pipes_.1 && ret ≤ 128)

/-- `Break`; `ret` is what `write` gives -/
def break_ (s : SocketBreaker) (ret : Int) : SocketBreaker × Bool :=
  if s.broken_ then (s, true)
  else
    let broken_ := !(ret < 0 || ret != 1)
    ({ s with broken_, unread := if broken_ then s.unread.map (· + 1) else s.unread }, broken_)

/-- `Clear`; `ret` is what `read` gives -/
def clear (s : SocketBreaker) (ret : Int) : SocketBreaker × Bool :=
  if ret < 0 then (s, false)
  else ({ s with broken_ := false, unread := s.unread.map (· - ret.toNat) }, true)

/-- `Close` leaves the numbers in `pipes_` -/
def close (s : SocketBreaker) : SocketBreaker := { s with broken_ := true, unread := none }

inductive Act where
  | break_ (ret : Int)
  | clear (ret : Int)
  | close
  | reCreate (o : PipeCalls)
deriving DecidableEq

def step (s : SocketBreaker) : Act → Option SocketBreaker
  | .break_ ret => if s.broken_ || s.canWrite ret then some (s.break_ ret).1 else none
  | .clear ret => if s.canRead ret then some (s.clear ret).1 else none
  | .close => some s.close
  | .reCreate o => some (s.reCreate o).1

/-- the constructor, by how its `ReCreate` goes -/
def new (o : PipeCalls) : SocketBreaker := (reCreate {} o).1

/-- a `poll` on `BreakerFD` finds something to read -/
def Readable (s : SocketBreaker) : Prop := ∃ n, s.unread = some n ∧ 0 < n

def readable (s : SocketBreaker) : Bool := s.unread.any (fun n => decide (0 < n))

/-- where `Break` would do nothing and the pipe is open, a `poll` wakes up -/
def Wakes (s : SocketBreaker) : Prop := s.broken_ = true → s.unread.isSome = true → s.Readable

/-- no pipe is made while the flag is set -/
def Fresh (s : SocketBreaker) : Act → Prop
  | .reCreate (.made _ _) => s.broken_ = false
  | _ => True

variable {s s' : SocketBreaker} {a : Act}

theorem wakes_of_closed (h : s.unread = none) : s.Wakes := by
  intro _ ho
  rw [h] at ho
  cases ho

theorem new_wakes (o : PipeCalls) : (new o).Wakes := by
  cases o with
  | made fd0 fd1 =>
    intro hb
    cases hb
  | _ => exact wakes_of_closed rfl

theorem break_wakes (h : s.Wakes) (ret : Int) : (s.break_ ret).1.Wakes := by
  unfold break_
  split
  · exact h
  · intro hb ho
    change (!(decide (ret < 0) || ret != 1)) = true at hb
    simp only [hb, if_true] at ho ⊢
    cases hu : s.unread with
    | none =>
      rw [hu] at ho
      cases ho
    | some n => exact ⟨n + 1, by simp only [Option.map_some], Nat.succ_pos n⟩

theorem clear_wakes (h : s.Wakes) (ret : Int) : (s.clear ret).1.Wakes := by
  unfold clear
  split
  · exact h
  · intro hb
    cases hb

theorem break_broken (b : SocketBreaker) : (b.break_ 1).1.broken_ = true := by
  unfold break_
  split
  · rename_i h
    exact h
  · rfl

theorem break_pipe {b : SocketBreaker} (h : b.unread.isSome = true) (ret : Int) :
    (b.break_ ret).1.unread.isSome = true := by
  unfold break_
  split
  · exact h
  · dsimp only
    split
    · rw [Option.isSome_map]
      exact h
    · exact h

theorem clear_pipe {b : SocketBreaker} (h : b.unread.isSome = true) (ret : Int) :
    (b.clear ret).1.unread.isSome = true := by
  unfold clear
  split
  · exact h
  · show (b.unread.map _).isSome = true
    rw [Option.isSome_map]
    exact h

/-- **Every step but a new pipe under a set flag keeps a breaker that wakes.** -/
theorem step_wakes (h : s.Wakes) (hf : Fresh s a) (hs : step s a = some s') : s'.Wakes := by
  cases a with
  | break_ ret =>
    obtain ⟨-, he⟩ := Option.ite_none_right_eq_some.mp hs
    cases he
    exact break_wakes h ret
  | clear ret =>
    obtain ⟨-, he⟩ := Option.ite_none_right_eq_some.mp hs
    cases he
    exact clear_wakes h ret
  | close =>
    cases hs
    exact wakes_of_closed rfl
  | reCreate o =>
    cases hs
    cases o with
    | made fd0 fd1 =>
      intro hb
      exact absurd (hf.symm.trans hb) Bool.false_ne_true
    | _ => exact wakes_of_closed rfl

/-- and a new pipe under a set flag makes one that does not -/
theorem stale_not_wakes (hf : ¬ Fresh s a) (hs : step s a = some s') : ¬ s'.Wakes := by
  intro h
  cases a with
  | reCreate o =>
    cases hs
    cases o with
    | made fd0 fd1 =>
      have hb : s.broken_ = true := by
        cases hb : s.broken_ with
        | true => rfl
        | false => exact absurd hb hf
      obtain ⟨n, hn, hpos⟩ := h hb rfl
      cases hn
      exact absurd hpos (Nat.lt_irrefl 0)
    | _ => exact hf trivial
  | _ => exact hf trivial

/-! ## runs -/

theorem run_wakes (o : PipeCalls) (h : Run step Fresh (new o) s) : s.Wakes := by
  refine Run.keep h ?_ (new_wakes o)
  intro t a t' ht hf ha
  exact step_wakes ht hf ha

/-- a `Break` that says yes has made the open pipe readable -/
theorem break_readable (o : PipeCalls) (h : Run step Fresh (new o) s) (ret : Int)
    (hyes : (s.break_ ret).2 = true) (hopen : s.unread.isSome = true) :
    (s.break_ ret).1.Readable := by
  refine break_wakes (run_wakes o h) ret ?_ ?_
  all_goals
    unfold break_ at hyes ⊢
    split at hyes
  · rename_i hb
    rw [if_pos hb]
    exact hb
  · rename_i hb
    rw [if_neg hb]
    exact hyes
  · rename_i hb
    rw [if_pos hb]
    exact hopen
  · rename_i hb
    dsimp only at hyes
    rw [if_neg hb]
    dsimp only
    rw [if_pos hyes, Option.isSome_map]
    exact hopen

/-- **A run has only breakers that wake exactly when it makes no pipe under a set flag.** -/
theorem wakes_iff (o : PipeCalls) (l : List Act) :
    (∀ l₁ l₂ t, l = l₁ ++ l₂ → exec step (new o) l₁ = some t → t.Wakes) ↔
      ∀ l₁ a l₂ t, l = l₁ ++ a :: l₂ → exec step (new o) l₁ = some t → Fresh t a := by
  constructor
  · intro h l₁ a l₂ t hl ht
    by_contra hf
    obtain ⟨u, hu⟩ : ∃ u, step t a = some u := by
      cases a with
      | reCreate p => exact ⟨_, rfl⟩
      | _ => exact absurd trivial hf
    refine stale_not_wakes hf hu (h (l₁ ++ [a]) l₂ u ?_ ?_)
    · rw [hl, List.append_assoc]
      rfl
    · rw [exec_append, ht]
      show (step t a).bind _ = some u
      rw [hu]
      rfl
  · intro h l₁ l₂ t hl ht
    refine run_wakes o (Run.of_exec_at ht ?_)
    intro k a k' u hk hu
    refine h k a (k' ++ l₂) u ?_ hu
    rw [hl, hk, List.append_assoc]
    rfl

/-- what `StopAndWait` does where `Break` fails, and a `Break` behind it -/
def stopped : List Act := [.break_ (-1), .close, .reCreate (.made 5 6), .break_ 1]

theorem stopped_asleep : ¬ ∀ o s, AnyRun step (new o) s → s.Wakes := by
  intro h
  obtain ⟨s, hs, hb, hu⟩ : ∃ s, exec step (new (.made 3 4)) stopped = some s ∧
      s.broken_ = true ∧ s.unread = some 0 := ⟨_, rfl, rfl, rfl⟩
  obtain ⟨n, hn, hpos⟩ := h _ s (Run.of_exec hs) hb (by rw [hu]; rfl)
  rw [hu] at hn
  cases hn
  exact absurd hpos (Nat.lt_irrefl 0)

end SocketBreaker
