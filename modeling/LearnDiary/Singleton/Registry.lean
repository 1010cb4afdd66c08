import LearnDiary.Lib.Runs
import Mathlib.Logic.Function.Basic
import Mathlib.Data.List.Nodup

/-!
# `Singleton` (comm/singleton.h, comm/singleton.cc)

The threads `θ` obtain and release the singletons of the types `τ`.  A type has a pointer and a
mutex of its own; its release helper is put on a list that all types share.  A step is the test
without the lock, taking the mutex, what is done under it, or one critical section of the list's
mutex; a constructor may obtain other singletons.  The test without the lock copies the pointer in one
access, and `_creater` returns an object.
-/

namespace Singleton

/-- `SingletonInfoImpl<T>`, by the number of its registration -/
structure Helper (τ : Type*) where
  id : Nat
  type : τ
deriving DecidableEq

/-- an instance: the helper that was registered for it, its address -/
structure Inst (τ : Type*) where
  helper : Helper τ
  addr : Nat
deriving DecidableEq

def Inst.type {τ : Type*} (i : Inst τ) : τ := i.helper.type

/-- a call of `Instance<T>`, by its next step -/
inductive Frame (τ : Type*) where
  /-- the test without the lock -/
  | start (T : τ)
  /-- `ScopedLock lock(singleton_mutex())` -/
  | lock (T : τ)
  /-- the test under the lock -/
  | check (T : τ)
  /-- in `_creater()`, the helper is registered -/
  | construct (T : τ) (h : Helper τ)
deriving DecidableEq

/-- a call of `Release<T>` or `ReleaseAll` -/
inductive Task where
  | idle
  /-- `_ReleaseSigleton(_instance)` before its critical section -/
  | search (_instance : Nat)
  /-- behind it, with helpers to release -/
  | releasing
deriving DecidableEq

structure State (τ θ : Type*) where
  instance_shared_ptr : τ → Option (Inst τ) := fun _ => none
  singleton_mutex : τ → Option θ := fun _ => none
  lst_singleton_releasehelper_ : List (Helper τ) := []
  /-- the helpers that exist -/
  helpers : List (Helper τ) := []
  /-- the number of helpers made -/
  next : Nat := 0
  /-- the calls of `Instance` of a thread, the innermost first -/
  stack : θ → List (Frame τ) := fun _ => []
  task : θ → Task := fun _ => .idle
  /-- the helpers a thread has taken off the list, in the order of their release -/
  todo : θ → List (Helper τ) := fun _ => []
  /-- a helper whose `DoRelease` is done -/
  dying : θ → Option (Helper τ) := fun _ => none
  /-- the instances that were constructed -/
  made : List (Inst τ) := []
  /-- the instances that were reset, with the helper that did it, the latest first -/
  resets : List (Inst τ × Helper τ) := []
  /-- what the constructors obtained, under the number of their helper -/
  obtained : List (Nat × Inst τ) := []

inductive Act (τ : Type*) where
  | Instance (T : τ)
  | Release (T : τ)
  | ReleaseAll
  /-- the next step of the thread's call; an instance that it constructs lies at `addr` -/
  | go (addr : Nat)
deriving DecidableEq

section
variable {τ θ : Type*} [DecidableEq τ] [DecidableEq θ]

namespace State

/-- a call of `Instance` returns `i` to the calls `k` -/
def ret (s : State τ θ) (t : θ) (i : Inst τ) (k : List (Frame τ)) : State τ θ :=
  { s with
    stack := Function.update s.stack t k
    obtained := match k with
      | .construct _ h :: _ => (h.id, i) :: s.obtained
      | _ => s.obtained }

def push (s : State τ θ) (t : θ) (k : List (Frame τ)) : State τ θ :=
  { s with stack := Function.update s.stack t k }

/-- the mutex of `T` is taken -/
def locked (s : State τ θ) (t : θ) (T : τ) (k : List (Frame τ)) : State τ θ :=
  { s with
    singleton_mutex := Function.update s.singleton_mutex T (some t)
    stack := Function.update s.stack t (.check T :: k) }

def unlock (s : State τ θ) (T : τ) : State τ θ :=
  { s with singleton_mutex := Function.update s.singleton_mutex T none }

/-- `_AddSigleton(new SingletonInfoImpl<T>())`, and the constructor begins -/
def add (s : State τ θ) (t : θ) (T : τ) (k : List (Frame τ)) : State τ θ :=
  let h : Helper τ := ⟨s.next, T⟩
  { s with
    lst_singleton_releasehelper_ := s.lst_singleton_releasehelper_ ++ [h]
    helpers := h :: s.helpers
    next := s.next + 1
    stack := Function.update s.stack t (.construct T h :: k) }

def set (s : State τ θ) (T : τ) (i : Inst τ) : State τ θ :=
  { s with
    instance_shared_ptr := Function.update s.instance_shared_ptr T (some i)
    made := i :: s.made }

/-- a thread takes helpers off the list, and leaves `l` -/
def take (s : State τ θ) (t : θ) (l helpers : List (Helper τ)) : State τ θ :=
  { s with
    lst_singleton_releasehelper_ := l
    todo := Function.update s.todo t helpers
    task := Function.update s.task t .releasing }

/-- `DoRelease` of the first helper of `todo` -/
def doRelease (s : State τ θ) (t : θ) (h : Helper τ) (l : List (Helper τ)) : State τ θ :=
  { s with
    instance_shared_ptr := Function.update s.instance_shared_ptr h.type none
    resets := match s.instance_shared_ptr h.type with
      | some i => (i, h) :: s.resets
      | none => s.resets
    todo := Function.update s.todo t l
    dying := Function.update s.dying t (some h) }

/-- `delete` of a helper -/
def delete (s : State τ θ) (t : θ) (h : Helper τ) : State τ θ :=
  { s with
    helpers := s.helpers.erase h
    dying := Function.update s.dying t none }

def goto (s : State τ θ) (t : θ) (a : Task) : State τ θ :=
  { s with task := Function.update s.task t a }

/-- `(*it)->GetInstance() == _instance` -/
def isInstance (s : State τ θ) (_instance : Nat) (it : Helper τ) : Bool :=
  (s.instance_shared_ptr it.type).any (fun i => i.addr == _instance)

/-- the next step of a call of `Instance` -/
def goInstance (s : State τ θ) (t : θ) (addr : Nat) (k : List (Frame τ)) :
    Frame τ → Option (State τ θ)
  | .start T =>
    match s.instance_shared_ptr T with
    | some i => some (s.ret t i k)
    | none => some (s.push t (.lock T :: k))
  | .lock T => if s.singleton_mutex T = none then some (s.locked t T k) else none
  | .check T =>
    match s.instance_shared_ptr T with
    | some i => some ((s.unlock T).ret t i k)
    | none => some (s.add t T k)
  | .construct T h => some (((s.set T ⟨h, addr⟩).unlock T).ret t ⟨h, addr⟩ k)

/-- the next step of a call of `Release` or `ReleaseAll` -/
def goTask (s : State τ θ) (t : θ) : Task → Option (State τ θ)
  | .idle => none
  | .search _instance =>
    match s.lst_singleton_releasehelper_.find? (s.isInstance _instance) with
    | some it => some (s.take t (s.lst_singleton_releasehelper_.erase it) [it])
    | none => some (s.goto t .idle)
  | .releasing =>
    match s.dying t with
    | some h => some (s.delete t h)
    | none =>
      match s.todo t with
      | [] => some (s.goto t .idle)
      | h :: l => if s.singleton_mutex h.type = none then some (s.doRelease t h l) else none

end State

def step (s : State τ θ) : θ × Act τ → Option (State τ θ)
  | (t, .Instance T) =>
    match s.task t, s.stack t with
    | .idle, [] => some (s.push t [.start T])
    | .idle, .construct T' h :: k => some (s.push t (.start T :: .construct T' h :: k))
    | _, _ => none
  | (t, .Release T) =>
    match s.task t, s.stack t with
    | .idle, [] =>
      match s.instance_shared_ptr T with
      | some i => some (s.goto t (.search i.addr))
      | none => some s
    | _, _ => none
  | (t, .ReleaseAll) =>
    match s.task t, s.stack t with
    | .idle, [] => some (s.take t [] s.lst_singleton_releasehelper_.reverse)
    | _, _ => none
  | (t, .go addr) =>
    match s.stack t with
    | f :: k => s.goInstance t addr k f
    | [] => s.goTask t (s.task t)

end

section
variable {τ θ : Type*}

/-- no call is in progress -/
def State.Idle (s : State τ θ) : Prop := ∀ t, s.stack t = [] ∧ s.task t = .idle

/-- the helper of what a call of `Instance` obtains in its next step -/
def State.obtains (s : State τ θ) : Frame τ → Option (Helper τ)
  | .start T => (s.instance_shared_ptr T).map Inst.helper
  | .lock _ => none
  | .check T => (s.instance_shared_ptr T).map Inst.helper
  | .construct _ h => some h

/-- what is asked of a step: a type gets a helper where none of it waits for its `delete`, and a
constructor obtains instances whose helpers are on the list before its own -/
def Agrees (s : State τ θ) : θ × Act τ → Prop
  | (t, .go _) =>
    (∀ T k, s.stack t = .check T :: k → s.instance_shared_ptr T = none →
      ∀ t' h, s.dying t' = some h → h.type ≠ T) ∧
    ∀ f T h k u, s.stack t = f :: .construct T h :: k → s.obtains f = some u → u.id < h.id
  | _ => True

end
end Singleton
