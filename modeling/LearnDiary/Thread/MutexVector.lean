import LearnDiary.Lib.Runs
import Mathlib.Logic.Function.Basic

/-!
# `ScopedMutexVector` (comm/thread/mutexvector.h)

A lock that any number of objects of one vector value may hold at a time.  The threads `τ` make
calls on the objects `ο`; a critical section of the mutex is one step, and a thread that waits on
the condition comes back to test again when it is notified, or for no reason.

* `Inv.run`        what holds when the calls on one object do not overlap;
* `run_holders`    the holders, the count, the waiters and the assertions;
* `call_overlap`   two calls on one object at a time, and a call on a locked object.
-/

set_option linter.unusedSectionVars false

namespace MutexVector
variable {τ ο : Type*}

inductive Call where
  | Lock
  | UnLock
  | TryLock
deriving DecidableEq

inductive Pc (ο : Type*) where
  /-- outside, with the result of the last `TryLock` -/
  | idle (ret : Option Bool)
  /-- before the test of `islocked_` -/
  | start (c : Call) (o : ο)
  /-- before the critical section -/
  | enter (c : Call) (o : ο)
  /-- in `m_cond.wait` -/
  | blocked (o : ο)
  /-- back from the wait, before the loop's test -/
  | woken (o : ο)
deriving DecidableEq

inductive Assertion where
  /-- `ASSERT(!islocked_)` of `Lock` -/
  | notLocked
  /-- `ASSERT(0 <= m_count)` of `Lock` -/
  | lockCount
  /-- `ASSERT(1 == m_count)` of `Lock` -/
  | firstLock
  /-- `ASSERT(islocked_)` of `UnLock` -/
  | locked
  /-- `ASSERT(vec_ == m_vec)` of `UnLock` -/
  | sameVec
  /-- `ASSERT(0 <= m_count)` of `UnLock` -/
  | unlockCount
  /-- `ASSERT(0 == m_count)` of `TryLock` -/
  | tryCount
deriving DecidableEq

structure State (τ ο : Type*) where
  m_vec : Int := 0
  m_count : Int := 0
  islocked_ : ο → Bool := fun _ => false
  pc : τ → Pc ο := fun _ => .idle none
  /-- the assertions that failed, with the object, the latest first -/
  failed : List (Assertion × ο) := []

section
variable [DecidableEq τ] [DecidableEq ο]

def State.assert (s : State τ ο) (a : Assertion) (o : ο) (p : Bool) : State τ ο :=
  if p then s else { s with failed := (a, o) :: s.failed }

def State.goto (s : State τ ο) (t : τ) (p : Pc ο) : State τ ο :=
  { s with pc := Function.update s.pc t p }

def Pc.wake : Pc ο → Pc ο
  | .blocked o => .woken o
  | p => p

/-- `m_cond.notifyAll(lock)` -/
def State.notifyAll (s : State τ ο) : State τ ο := { s with pc := fun t => (s.pc t).wake }

def State.setLocked (s : State τ ο) (o : ο) (b : Bool) : State τ ο :=
  { s with islocked_ := Function.update s.islocked_ o b }

variable (vec_ : ο → Int)

/-- the loop of `Lock` and what follows it -/
def State.lockLoop (s : State τ ο) (t : τ) (o : ο) : State τ ο :=
  if s.m_count > 0 ∧ s.m_vec ≠ vec_ o then s.goto t (.blocked o)
  else
    let s := s.assert .lockCount o (0 ≤ s.m_count)
    let s := { s with m_count := s.m_count + 1 }.setLocked o true
    let s :=
      if s.m_vec ≠ vec_ o then
        let s := s.assert .firstLock o (1 = s.m_count)
        { s with m_vec := vec_ o }.notifyAll
      else s
    s.goto t (.idle none)

/-- the critical section of `UnLock` -/
def State.unlockSection (s : State τ ο) (t : τ) (o : ο) : State τ ο :=
  let s := s.assert .sameVec o (vec_ o = s.m_vec)
  let s := { s with m_count := s.m_count - 1 }
  let s := s.assert .unlockCount o (0 ≤ s.m_count)
  let s := s.setLocked o false
  let s := if 0 ≥ s.m_count then s.notifyAll else s
  s.goto t (.idle none)

/-- the critical section of `TryLock` -/
def State.trySection (s : State τ ο) (t : τ) (o : ο) : State τ ο :=
  if s.m_vec = vec_ o then
    ({ s with m_count := s.m_count + 1 }.setLocked o true).goto t (.idle (some true))
  else if s.m_count > 0 then s.goto t (.idle (some false))
  else
    let s := s.assert .tryCount o (0 = s.m_count)
    let s := { s with m_vec := vec_ o, m_count := 1 }.setLocked o true
    s.notifyAll.goto t (.idle (some true))

inductive Action (ο : Type*) where
  | call (c : Call) (o : ο)
  /-- the next step of the thread's call -/
  | go
  /-- the wait returns without a notification -/
  | spurious
deriving DecidableEq

def step (s : State τ ο) : τ × Action ο → Option (State τ ο)
  | (t, .call c o) =>
    match s.pc t with
    | .idle _ => some (s.goto t (.start c o))
    | _ => none
  | (t, .spurious) =>
    match s.pc t with
    | .blocked o => some (s.goto t (.woken o))
    | _ => none
  | (t, .go) =>
    match s.pc t with
    | .start .Lock o =>
      some ((s.assert .notLocked o (!s.islocked_ o)).goto t
        (if s.islocked_ o then .idle none else .enter .Lock o))
    | .start .UnLock o =>
      some ((s.assert .locked o (s.islocked_ o)).goto t
        (if s.islocked_ o then .enter .UnLock o else .idle none))
    | .start .TryLock o =>
      some (s.goto t (if s.islocked_ o then .idle (some false) else .enter .TryLock o))
    | .enter .Lock o =>
      if s.m_vec = vec_ o then
        some (({ s with m_count := s.m_count + 1 }.setLocked o true).goto t (.idle none))
      else some (s.lockLoop vec_ t o)
    | .enter .UnLock o => some (s.unlockSection vec_ t o)
    | .enter .TryLock o => some (s.trySection vec_ t o)
    | .woken o => some (s.lockLoop vec_ t o)
    | .blocked _ => none
    | .idle _ => none

end

def Pc.object : Pc ο → Option ο
  | .idle _ => none
  | .start _ o => some o
  | .enter _ o => some o
  | .blocked o => some o
  | .woken o => some o

/-- a call begins on an object that no other call is on -/
def Alone (s : State τ ο) : τ × Action ο → Prop
  | (_, .call _ o) => ∀ t, (s.pc t).object ≠ some o
  | _ => True

/-- a call that its object's flag does not allow: the assertion that says so -/
def misuse (s : State τ ο) : τ × Action ο → List (Assertion × ο)
  | (t, .go) =>
    match s.pc t with
    | .start .Lock o => if s.islocked_ o then [(.notLocked, o)] else []
    | .start .UnLock o => if s.islocked_ o then [] else [(.locked, o)]
    | _ => []
  | _ => []

/-- exactly `n` objects hold the lock -/
def Holders (islocked_ : ο → Bool) (n : Int) : Prop :=
  ∃ l : List ο, l.Nodup ∧ (∀ o, o ∈ l ↔ islocked_ o = true) ∧ n = l.length

/-! ## the number of the holders -/

section
variable [DecidableEq ο] {f : ο → Bool} {n : Int} {o : ο}

theorem Holders.init : Holders (fun _ : ο => false) 0 :=
  ⟨[], List.nodup_nil, fun _ => ⟨nofun, nofun⟩, rfl⟩

theorem Holders.nonneg (h : Holders f n) : 0 ≤ n := by
  obtain ⟨l, -, -, rfl⟩ := h
  exact Int.natCast_nonneg _

theorem Holders.pos (h : Holders f n) (ho : f o = true) : 1 ≤ n := by
  obtain ⟨l, -, hl, rfl⟩ := h
  have := List.length_pos_of_mem ((hl o).mpr ho)
  omega

theorem Holders.none (h : Holders f n) (hn : n ≤ 0) (o : ο) : f o = false := by
  cases ho : f o with
  | false => rfl
  | true =>
    have := h.pos ho
    omega

theorem Holders.add (h : Holders f n) (ho : f o = false) :
    Holders (Function.update f o true) (n + 1) := by
  obtain ⟨l, hd, hl, rfl⟩ := h
  have hnot : o ∉ l := fun hm => by
    rw [hl, ho] at hm
    cases hm
  refine ⟨o :: l, List.nodup_cons.mpr ⟨hnot, hd⟩, ?_, rfl⟩
  intro x
  rw [List.mem_cons, hl]
  by_cases hx : x = o
  · rw [hx, Function.update_self]
    exact ⟨fun _ => rfl, fun _ => .inl rfl⟩
  · rw [Function.update_of_ne hx]
    exact ⟨fun h => h.resolve_left hx, .inr⟩

theorem Holders.remove (h : Holders f n) (ho : f o = true) :
    Holders (Function.update f o false) (n - 1) := by
  obtain ⟨l, hd, hl, rfl⟩ := h
  have hmem := (hl o).mpr ho
  refine ⟨l.erase o, hd.erase o, ?_, ?_⟩
  · intro x
    rw [hd.mem_erase_iff, hl]
    by_cases hx : x = o
    · rw [hx, Function.update_self]
      exact ⟨fun h => absurd rfl h.1, nofun⟩
    · rw [Function.update_of_ne hx]
      exact ⟨fun h => h.2, fun h => ⟨hx, h⟩⟩
  · have := List.length_erase_of_mem hmem
    have := List.length_pos_of_mem hmem
    omega

end

/-! ## the invariant -/

/-- what a call has read of its object's flag -/
def Pc.flag : Pc ο → Option (ο × Bool)
  | .enter .UnLock o => some (o, true)
  | .enter _ o => some (o, false)
  | .blocked o => some (o, false)
  | .woken o => some (o, false)
  | _ => none

theorem object_of_flag {p : Pc ο} {o : ο} {b : Bool} (h : p.flag = some (o, b)) :
    p.object = some o := by
  cases p with
  | idle r => cases h
  | start c o => cases h
  | enter c o => cases c <;> cases h <;> rfl
  | blocked o =>
    cases h
    rfl
  | woken o =>
    cases h
    rfl

theorem wake_object (p : Pc ο) : p.wake.object = p.object := by
  cases p <;> rfl

theorem wake_flag (p : Pc ο) : p.wake.flag = p.flag := by
  cases p <;> rfl

theorem wake_ne_blocked (p : Pc ο) (o : ο) : p.wake ≠ .blocked o := by
  cases p <;> nofun

structure Inv (vec_ : ο → Int) (s : State τ ο) : Prop where
  holders : Holders s.islocked_ s.m_count
  same : ∀ o, s.islocked_ o = true → s.m_vec = vec_ o
  alone : ∀ t t' o, (s.pc t).object = some o → (s.pc t').object = some o → t = t'
  flag : ∀ t o b, (s.pc t).flag = some (o, b) → s.islocked_ o = b
  waits : ∀ t o, s.pc t = .blocked o → 0 < s.m_count ∧ s.m_vec ≠ vec_ o

section
variable [DecidableEq τ] [DecidableEq ο] {vec_ : ο → Int} {s s' : State τ ο} {t : τ} {o : ο}
  {p : Pc ο} {r : Option Bool}

theorem Inv.init : Inv vec_ ({} : State τ ο) where
  holders := Holders.init
  same := nofun
  alone := nofun
  flag := nofun
  waits := nofun

/-- the lock is granted to the object `o` of the thread `t` -/
def State.granted (vec_ : ο → Int) (s : State τ ο) (t : τ) (o : ο) (r : Option Bool) :
    State τ ο :=
  { s with
    m_vec := vec_ o
    m_count := s.m_count + 1
    islocked_ := Function.update s.islocked_ o true
    pc := Function.update (fun t => if s.m_vec = vec_ o then s.pc t else (s.pc t).wake) t (.idle r) }

/-- the object `o` of the thread `t` gives the lock back -/
def State.released (s : State τ ο) (t : τ) (o : ο) : State τ ο :=
  { s with
    m_count := s.m_count - 1
    islocked_ := Function.update s.islocked_ o false
    pc := Function.update (fun t => if s.m_count ≤ 1 then (s.pc t).wake else s.pc t) t (.idle none) }

theorem Inv.goto (hi : Inv vec_ s) (f : List (Assertion × ο))
    (hobj : ∀ o, p.object = some o → ∀ t', (s.pc t').object = some o → t' = t)
    (hflag : ∀ o b, p.flag = some (o, b) → s.islocked_ o = b)
    (hwait : ∀ o, p = .blocked o → 0 < s.m_count ∧ s.m_vec ≠ vec_ o) :
    Inv vec_ ({ s with failed := f }.goto t p) := by
  have hpc : ∀ t', t' = t ∧ ({ s with failed := f }.goto t p).pc t' = p ∨
      t' ≠ t ∧ ({ s with failed := f }.goto t p).pc t' = s.pc t' := by
    intro t'
    by_cases h : t' = t
    · exact .inl ⟨h, by rw [h]; exact Function.update_self ..⟩
    · exact .inr ⟨h, Function.update_of_ne h ..⟩
  refine ⟨hi.holders, hi.same, ?_, ?_, ?_⟩
  · intro t₁ t₂ o h₁ h₂
    rcases hpc t₁ with ⟨e₁, hp₁⟩ | ⟨e₁, hp₁⟩ <;> rcases hpc t₂ with ⟨e₂, hp₂⟩ | ⟨e₂, hp₂⟩ <;>
      rw [hp₁] at h₁ <;> rw [hp₂] at h₂
    · rw [e₁, e₂]
    · exact absurd (hobj o h₁ t₂ h₂) e₂
    · exact absurd (hobj o h₂ t₁ h₁) e₁
    · exact hi.alone t₁ t₂ o h₁ h₂
  · intro t' o b h
    rcases hpc t' with ⟨-, hp⟩ | ⟨-, hp⟩ <;> rw [hp] at h
    · exact hflag o b h
    · exact hi.flag t' o b h
  · intro t' o h
    rcases hpc t' with ⟨-, hp⟩ | ⟨-, hp⟩ <;> rw [hp] at h
    · exact hwait o h
    · exact hi.waits t' o h

theorem Inv.others (hi : Inv vec_ s) (h : (s.pc t).object = some o) {t' : τ} (ht : t' ≠ t)
    {o' : ο} (h' : (s.pc t').object = some o') : o' ≠ o := by
  intro he
  rw [he] at h'
  exact ht (hi.alone t' t o h' h)

theorem Inv.change (hi : Inv vec_ s) {w : Prop} [Decidable w] {vec count : Int} {b : Bool}
    (hflag : (s.pc t).flag = some (o, !b))
    (hcount : Holders (Function.update s.islocked_ o b) count)
    (hsame : ∀ o', Function.update s.islocked_ o b o' = true → vec = vec_ o')
    (hwait : ¬ w → ∀ o', 0 < s.m_count ∧ s.m_vec ≠ vec_ o' → 0 < count ∧ vec ≠ vec_ o') :
    Inv vec_ { s with
      m_vec := vec
      m_count := count
      islocked_ := Function.update s.islocked_ o b
      pc := Function.update (fun t => if w then (s.pc t).wake else s.pc t) t (.idle r) } := by
  let pc' := Function.update (fun t => if w then (s.pc t).wake else s.pc t) t (.idle r)
  have hobj := object_of_flag hflag
  have hself : pc' t = .idle r := Function.update_self ..
  have hother : ∀ t', t' ≠ t → pc' t' = if w then (s.pc t').wake else s.pc t' :=
    fun t' ht => Function.update_of_ne ht ..
  have hobject : ∀ t', t' ≠ t → (pc' t').object = (s.pc t').object := by
    intro t' ht
    rw [hother t' ht]
    split
    · exact wake_object _
    · rfl
  have hne : ∀ t' o', (pc' t').object = some o' → t' ≠ t ∧ (s.pc t').object = some o' := by
    intro t' o' h
    by_cases ht : t' = t
    · rw [ht, hself] at h
      cases h
    · exact ⟨ht, hobject t' ht ▸ h⟩
  refine ⟨hcount, hsame, ?_, ?_, ?_⟩
  · intro t₁ t₂ o' h₁ h₂
    exact hi.alone t₁ t₂ o' (hne t₁ o' h₁).2 (hne t₂ o' h₂).2
  · intro t' o' b' h
    obtain ⟨ht, hobj'⟩ := hne t' o' (object_of_flag h)
    have hfl : (s.pc t').flag = some (o', b') := by
      change (pc' t').flag = _ at h
      rw [hother t' ht] at h
      split at h
      · rw [wake_flag] at h
        exact h
      · exact h
    show Function.update s.islocked_ o b o' = b'
    rw [Function.update_of_ne (hi.others hobj ht hobj')]
    exact hi.flag t' o' b' hfl
  · intro t' o' h
    change pc' t' = _ at h
    obtain ⟨ht, -⟩ := hne t' o' (by rw [h]; rfl)
    rw [hother t' ht] at h
    split at h
    · exact absurd h (wake_ne_blocked _ _)
    · rename_i hw
      exact hwait hw o' (hi.waits t' o' h)

theorem Inv.granted (hi : Inv vec_ s) (hflag : (s.pc t).flag = some (o, false))
    (hv : s.m_count ≤ 0 ∨ s.m_vec = vec_ o) : Inv vec_ (s.granted vec_ t o r) := by
  have hpc : (fun t => if s.m_vec = vec_ o then s.pc t else (s.pc t).wake) =
      fun t => if s.m_vec ≠ vec_ o then (s.pc t).wake else s.pc t := by
    funext t
    exact (ite_not ..).symm
  unfold State.granted
  rw [hpc]
  apply hi.change hflag (hi.holders.add (hi.flag t o false hflag))
  · intro o' ho'
    by_cases he : o' = o
    · rw [he]
    · rw [Function.update_of_ne he] at ho'
      rcases hv with h | h
      · rw [hi.holders.none h o'] at ho'
        cases ho'
      · rw [← h]
        exact hi.same o' ho'
  · intro hw o' ⟨hc, hne⟩
    rw [← not_not.mp hw]
    exact ⟨by omega, hne⟩

theorem Inv.released (hi : Inv vec_ s) (hflag : (s.pc t).flag = some (o, true)) :
    Inv vec_ (s.released t o) := by
  apply hi.change hflag (hi.holders.remove (hi.flag t o true hflag))
  · intro o' ho'
    by_cases he : o' = o
    · rw [he, Function.update_self] at ho'
      cases ho'
    · rw [Function.update_of_ne he] at ho'
      exact hi.same o' ho'
  · intro hw o' ⟨_, hne⟩
    exact ⟨by omega, hne⟩

/-! ## the critical sections -/

theorem assert_true {a : Assertion} {q : Bool} (hq : q = true) : s.assert a o q = s := by
  rw [hq]
  rfl

theorem enter_eq (hv : s.m_vec = vec_ o) :
    (({ s with m_count := s.m_count + 1 }.setLocked o true).goto t (.idle r)) =
      s.granted vec_ t o r := by
  have hpc : (fun t => if s.m_vec = vec_ o then s.pc t else (s.pc t).wake) = s.pc := by
    funext t
    exact if_pos hv
  unfold State.granted
  rw [hpc, ← hv]
  rfl

/-- **the loop of `Lock`**: the thread waits, or the lock is granted and no assertion fails -/
theorem lockLoop_eq (hc : 0 ≤ s.m_count) : s.lockLoop vec_ t o =
    if s.m_count > 0 ∧ s.m_vec ≠ vec_ o then s.goto t (.blocked o)
    else s.granted vec_ t o none := by
  unfold State.lockLoop
  split
  · rfl
  · rename_i h
    rw [assert_true (decide_eq_true hc)]
    dsimp only
    split
    · rename_i hne
      have hzero : s.m_count = 0 := by
        have : ¬ s.m_count > 0 := fun hpos => h ⟨hpos, hne⟩
        omega
      have hone : (1 : Int) = ({ s with m_count := s.m_count + 1 }.setLocked o true).m_count := by
        show (1 : Int) = s.m_count + 1
        omega
      rw [assert_true (decide_eq_true hone)]
      have hpc : (fun t => if s.m_vec = vec_ o then s.pc t else (s.pc t).wake) =
          fun t => (s.pc t).wake := by
        funext t
        exact if_neg hne
      unfold State.granted
      rw [hpc]
      rfl
    · rename_i hv
      exact enter_eq (not_not.mp hv)

theorem trySection_eq (hc : 0 ≤ s.m_count) : s.trySection vec_ t o =
    if s.m_count > 0 ∧ s.m_vec ≠ vec_ o then s.goto t (.idle (some false))
    else s.granted vec_ t o (some true) := by
  unfold State.trySection
  by_cases hv : s.m_vec = vec_ o
  · rw [if_pos hv, if_neg (fun h => h.2 hv)]
    exact enter_eq hv
  · rw [if_neg hv]
    by_cases hpos : s.m_count > 0
    · rw [if_pos hpos, if_pos ⟨hpos, hv⟩]
    · have hzero : 0 = s.m_count := by omega
      rw [if_neg hpos, if_neg (fun h => hpos h.1), assert_true (decide_eq_true hzero)]
      have hpc : (fun t => if s.m_vec = vec_ o then s.pc t else (s.pc t).wake) =
          fun t => (s.pc t).wake := by
        funext t
        exact if_neg hv
      unfold State.granted
      rw [hpc, ← hzero]
      rfl

theorem unlockSection_eq (hc : 1 ≤ s.m_count) (hv : s.m_vec = vec_ o) :
    s.unlockSection vec_ t o = s.released t o := by
  unfold State.unlockSection
  have hle : (0 : Int) ≤ ({ s with m_count := s.m_count - 1 } : State τ ο).m_count := by
    show (0 : Int) ≤ s.m_count - 1
    omega
  rw [assert_true (decide_eq_true hv.symm)]
  dsimp only
  rw [assert_true (decide_eq_true hle)]
  unfold State.released
  split
  · rename_i h
    change 0 ≥ s.m_count - 1 at h
    have hpc : (fun t => if s.m_count ≤ 1 then (s.pc t).wake else s.pc t) =
        fun t => (s.pc t).wake := by
      funext t
      exact if_pos (by omega)
    rw [hpc]
    rfl
  · rename_i h
    change ¬ 0 ≥ s.m_count - 1 at h
    have hpc : (fun t => if s.m_count ≤ 1 then (s.pc t).wake else s.pc t) = s.pc := by
      funext t
      exact if_neg (by omega)
    rw [hpc]
    rfl

/-- what a step does: a thread moves on its own, or the lock is granted or given back -/
inductive Effect (vec_ : ο → Int) (s : State τ ο) (f : List (Assertion × ο)) (t : τ) :
    State τ ο → Prop where
  | moves {p : Pc ο} :
    (∀ o, p.object = some o → ∀ t', (s.pc t').object = some o → t' = t) →
    (∀ o b, p.flag = some (o, b) → s.islocked_ o = b) →
    (∀ o, p = .blocked o → 0 < s.m_count ∧ s.m_vec ≠ vec_ o) →
    Effect vec_ s f t ({ s with failed := f ++ s.failed }.goto t p)
  | grants {o : ο} {r : Option Bool} : f = [] → (s.pc t).flag = some (o, false) →
    s.m_count ≤ 0 ∨ s.m_vec = vec_ o → Effect vec_ s f t (s.granted vec_ t o r)
  | releases {o : ο} : f = [] → (s.pc t).flag = some (o, true) →
    Effect vec_ s f t (s.released t o)

theorem Effect.goes (hi : Inv vec_ s) {f : List (Assertion × ο)} (ho : (s.pc t).object = some o)
    (hp : p.object = some o ∨ p.object = none) (hflag : ∀ b, p.flag = some (o, b) → s.islocked_ o = b)
    (hwait : p = .blocked o → 0 < s.m_count ∧ s.m_vec ≠ vec_ o) :
    Effect vec_ s f t ({ s with failed := f ++ s.failed }.goto t p) := by
  have hobj : ∀ o', p.object = some o' → o' = o := by
    intro o' h
    rcases hp with hp | hp <;> rw [hp] at h
    · exact (Option.some.inj h).symm
    · cases h
  refine .moves ?_ ?_ ?_
  · intro o' h t' h'
    rw [hobj o' h] at h'
    exact hi.alone t' t o h' ho
  · intro o' b h
    have := hobj o' (object_of_flag h)
    rw [this] at h ⊢
    exact hflag b h
  · intro o' h
    have := hobj o' (by rw [h]; rfl)
    rw [this] at h ⊢
    exact hwait h

theorem Effect.tests (hi : Inv vec_ s) (hflag : (s.pc t).flag = some (o, false))
    (hp : p = .blocked o ∨ ∃ r, p = .idle r) : Effect vec_ s [] t
      (if s.m_count > 0 ∧ s.m_vec ≠ vec_ o then s.goto t p else s.granted vec_ t o r) := by
  split
  · rename_i h
    refine Effect.goes (f := []) hi (object_of_flag hflag) ?_ ?_ (fun _ => h)
    · rcases hp with rfl | ⟨r, rfl⟩
      · exact .inl rfl
      · exact .inr rfl
    · intro b hb
      rcases hp with rfl | ⟨r, rfl⟩
      · cases hb
        exact hi.flag t o false hflag
      · cases hb
  · rename_i h
    refine .grants rfl hflag ?_
    by_cases hv : s.m_vec = vec_ o
    · exact .inr hv
    · exact .inl (Int.not_lt.mp (fun hpos => h ⟨hpos, hv⟩))

/-- **a step of calls that do not overlap** -/
theorem step_effect (hi : Inv vec_ s) {a : τ × Action ο} (ha : Alone s a)
    (h : step vec_ s a = some s') : Effect vec_ s (misuse s a) a.1 s' := by
  obtain ⟨t, a⟩ := a
  have hnn := hi.holders.nonneg
  cases a with
  | call c o =>
    rw [step] at h
    split at h
    · cases h
      refine .moves (f := []) ?_ nofun nofun
      intro o' ho' t' ht'
      cases ho'
      exact absurd ht' (ha t')
    · cases h
  | spurious =>
    rw [step] at h
    split at h
    · rename_i o hpc
      cases h
      refine Effect.goes (f := []) hi (o := o) (by rw [hpc]; rfl) (.inl rfl) ?_ nofun
      intro b hb
      cases hb
      exact hi.flag t o false (by rw [hpc]; rfl)
    · cases h
  | go =>
    cases hpc : s.pc t with
    | idle r =>
      rw [step, hpc] at h
      cases h
    | blocked o =>
      rw [step, hpc] at h
      cases h
    | woken o =>
      rw [step, hpc] at h
      dsimp only at h
      rw [lockLoop_eq hnn] at h
      cases h
      have hm : misuse s (t, .go) = [] := by rw [misuse, hpc]
      rw [hm]
      exact Effect.tests hi (by rw [hpc]; rfl) (.inl rfl)
    | start c o =>
      have ho : (s.pc t).object = some o := by rw [hpc]; rfl
      cases c with
      | Lock =>
        rw [step, hpc] at h
        cases h
        rw [misuse, hpc]
        dsimp only
        cases hl : s.islocked_ o with
        | true => exact Effect.goes hi ho (.inr rfl) nofun nofun
        | false =>
          refine Effect.goes (f := []) hi ho (.inl rfl) ?_ nofun
          intro b hb
          cases hb
          exact hl
      | UnLock =>
        rw [step, hpc] at h
        cases h
        rw [misuse, hpc]
        dsimp only
        cases hl : s.islocked_ o with
        | true =>
          refine Effect.goes (f := []) hi ho (.inl rfl) ?_ nofun
          intro b hb
          cases hb
          exact hl
        | false => exact Effect.goes hi ho (.inr rfl) nofun nofun
      | TryLock =>
        rw [step, hpc] at h
        cases h
        rw [misuse, hpc]
        dsimp only
        cases hl : s.islocked_ o with
        | true => exact Effect.goes (f := []) hi ho (.inr rfl) nofun nofun
        | false =>
          refine Effect.goes (f := []) hi ho (.inl rfl) ?_ nofun
          intro b hb
          cases hb
          exact hl
    | enter c o =>
      rw [misuse, hpc]
      dsimp only
      cases c with
      | Lock =>
        have hflag : (s.pc t).flag = some (o, false) := by rw [hpc]; rfl
        rw [step, hpc] at h
        dsimp only at h
        split at h
        · rename_i hv
          rw [enter_eq hv] at h
          cases h
          exact .grants rfl hflag (.inr hv)
        · rw [lockLoop_eq hnn] at h
          cases h
          exact Effect.tests hi hflag (.inl rfl)
      | UnLock =>
        have hflag : (s.pc t).flag = some (o, true) := by rw [hpc]; rfl
        have hl := hi.flag t o true hflag
        rw [step, hpc] at h
        dsimp only at h
        rw [unlockSection_eq (hi.holders.pos hl) (hi.same o hl)] at h
        cases h
        exact .releases rfl hflag
      | TryLock =>
        have hflag : (s.pc t).flag = some (o, false) := by rw [hpc]; rfl
        rw [step, hpc] at h
        dsimp only at h
        rw [trySection_eq hnn] at h
        cases h
        exact Effect.tests hi hflag (.inr ⟨_, rfl⟩)

theorem Inv.effect (hi : Inv vec_ s) {f : List (Assertion × ο)} (h : Effect vec_ s f t s') :
    Inv vec_ s' := by
  cases h with
  | moves hobj hflag hwait => exact hi.goto _ hobj hflag hwait
  | grants _ hflag hv => exact hi.granted hflag hv
  | releases _ hflag => exact hi.released hflag

/-- **the invariant of every run whose calls do not overlap on an object** -/
theorem Inv.run (h : Runs.Run (step vec_) Alone ({} : State τ ο) s) : Inv vec_ s :=
  h.keep (fun _ _ _ hi ha hs => hi.effect (step_effect hi ha hs)) Inv.init

theorem Effect.failed {f : List (Assertion × ο)} (h : Effect vec_ s f t s') :
    s'.failed = f ++ s.failed := by
  cases h with
  | moves => rfl
  | grants hf =>
    rw [hf]
    rfl
  | releases hf =>
    rw [hf]
    rfl

/-- a step changes the flag of one object at most -/
theorem Effect.grant {f : List (Assertion × ο)} (h : Effect vec_ s f t s') {o o' : ο}
    (ho : s.islocked_ o = false) (ho' : s'.islocked_ o = true) (hl : s.islocked_ o' = true) :
    s'.islocked_ o' = true := by
  cases h with
  | moves => exact hl
  | @grants o₁ r _ hflag _ =>
    change Function.update s.islocked_ o₁ true o' = true
    by_cases he : o' = o₁
    · rw [he, Function.update_self]
    · rw [Function.update_of_ne he]
      exact hl
  | @releases o₁ _ _ =>
    change Function.update s.islocked_ o₁ false o = true at ho'
    by_cases he : o = o₁
    · rw [he, Function.update_self] at ho'
      cases ho'
    · rw [Function.update_of_ne he, ho] at ho'
      cases ho'

/-- **The holders of the lock**, in every run whose calls do not overlap on an object: they have one
vector value, which is `m_vec`, and `m_count` is their number; a thread that waits without having
been notified has a condition that is false; no step grants the lock for another value while it is
held; the assertions fail exactly when `Lock` is called on a locked object and `UnLock` on one that
is not. -/
theorem run_holders (h : Runs.Run (step vec_) Alone ({} : State τ ο) s) :
    (∀ o, s.islocked_ o = true → vec_ o = s.m_vec) ∧ Holders s.islocked_ s.m_count ∧
    (∀ t o, s.pc t = .blocked o → ¬ (s.m_count = 0 ∨ s.m_vec = vec_ o)) ∧
    ∀ a s', Alone s a → step vec_ s a = some s' →
      (∀ o o', s.islocked_ o = false → s'.islocked_ o = true → s.islocked_ o' = true →
        vec_ o' = vec_ o) ∧
      s'.failed = misuse s a ++ s.failed := by
  have hi := Inv.run h
  refine ⟨fun o ho => (hi.same o ho).symm, hi.holders, ?_, ?_⟩
  · rintro t o hb (hz | hv)
    · have := (hi.waits t o hb).1
      omega
    · exact (hi.waits t o hb).2 hv
  · intro a s' ha hs
    have he := step_effect hi ha hs
    have hi' := hi.effect he
    refine ⟨?_, he.failed⟩
    intro o o' ho ho' hl
    rw [← hi'.same o ho', ← hi'.same o' (he.grant ho ho' hl)]

end

/-- the object 1 waits for the value of the object 0 to be given up -/
theorem run_holders_waits : ∃ s : State Nat Nat, s.pc 1 = .blocked 1 ∧
    ¬ (s.m_count = 0 ∨ s.m_vec = 1) := by
  have hfirst : Runs.Run (step fun o : Nat => (o : Int)) Alone ({} : State Nat Nat) _ :=
    ((Runs.Run.one (a := (0, .call .Lock 0)) nofun rfl).tail
      ⟨(0, .go), trivial, rfl⟩).tail ⟨(0, .go), trivial, rfl⟩
  have hsecond := ((hfirst.tail ⟨(1, .call .Lock 1), ?_, rfl⟩).tail
    ⟨(1, .go), trivial, rfl⟩).tail ⟨(1, .go), trivial, rfl⟩
  · exact ⟨_, rfl, (run_holders hsecond).2.2.1 1 1 rfl⟩
  · intro t
    cases t with
    | zero => exact (nofun : (none : Option Nat) ≠ some 1)
    | succ t => exact (nofun : (none : Option Nat) ≠ some 1)

/-- **Two calls on one object**: `Lock` on an object that is locked fails its assertion, and when
two threads call `TryLock` on one object both find its flag unset and count it. -/
theorem call_overlap :
    (∃ s : State Bool Unit, Runs.AnyRun (step fun _ => 0) {} s ∧ s.failed = [(.notLocked, ())]) ∧
    ∃ s : State Bool Unit, Runs.AnyRun (step fun _ => 0) {} s ∧ ¬ Holders s.islocked_ s.m_count := by
  constructor
  · have hrun : Runs.AnyRun (step fun _ => 0) ({} : State Bool Unit) _ :=
      .of_exec (l := [(true, .call .Lock ()), (true, .go), (true, .go), (true, .call .Lock ()),
        (true, .go)]) rfl
    exact ⟨_, hrun, rfl⟩
  · have hrun : Runs.AnyRun (step fun _ => 0) ({} : State Bool Unit) _ :=
      .of_exec (l := [(true, .call .TryLock ()), (false, .call .TryLock ()), (true, .go),
        (false, .go), (true, .go), (false, .go)]) rfl
    refine ⟨_, hrun, ?_⟩
    rintro ⟨l, hd, -, hn⟩
    have hl : l.length ≤ 1 := by
      match l, hd with
      | [], _ => exact Nat.zero_le 1
      | [_], _ => exact Nat.le_refl 1
      | _ :: _ :: _, hd => exact absurd List.mem_cons_self (List.nodup_cons.mp hd).1
    have hc : (2 : Int) = l.length := hn
    omega

end MutexVector
