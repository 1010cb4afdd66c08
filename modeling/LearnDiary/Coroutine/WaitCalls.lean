import LearnDiary.Coroutine.WaitThread
import LearnDiary.Lib.Runs
import Mathlib.Logic.Function.Basic

/-!
# The calls of one `WaitThread` (comm/coroutine/coro_async.h)

One object is called again and again, by whatever coroutines, while the threads it starts end,
`Cancel` is called, and the loops take out and run the resume messages.  `Thread::start` does nothing
while the thread runs, and then the callback comes, with `false`, when the last copy of the
`AsyncResult` goes with the return of the call.

* `Fresh`           a call comes to a wrapper that only time-outs have used before;
* `Inv`             what holds of the object between and in such calls;
* `wait_once`       then every call is resumed once, by the event it reports;
* `wait_stuck`      a second call after one that has ended is never resumed.
-/

namespace Coroutine.Calls
open Runs

/-- which `operator ()` -/
inductive Overload where
  | value
  | void
deriving DecidableEq

/-- where the coroutine is: before its `Yield`, in it, behind it -/
inductive Place where
  | called
  | waiting
  | resumed
deriving DecidableEq

/-- the call in progress; `started` says that `thread_.start` has started its function, `cancelled`
that `Cancel` has come, which the code does not store -/
structure Call where
  call : Nat
  co : Nat
  _timeout : Int
  overload : Overload
  started : Bool
  place : Place := .called
  cancelled : Bool := false
deriving DecidableEq

/-- the running thread: whose function, and whether the callback has come to its end -/
structure Worker where
  call : Nat
  ended : Bool := false
deriving DecidableEq

/-- the history, which no code reads; `stray` is a resume message that finds no waiting call -/
inductive Mark (R : Type) where
  | finished (call : Nat) (result : R)
  | resumed (call : Nat) (x : ResumeMsg)
  | stray (x : ResumeMsg)
  | returned (call : Nat) (overload : Overload) (status : Event) (result : Option R)
deriving DecidableEq

structure State (R : Type) where
  wrapper_ : Wrapper_ := {}
  mail : Mail := {}
  /-- the number of calls made -/
  calls : Nat := 0
  current : Option Call := none
  thread_ : Option Worker := none
  /-- the `result` of every call -/
  results : Nat → Option R := fun _ => none
  log : List (Mark R) := []

inductive Act (R : Type) where
  | call (co : Nat) (_timeout : Int) (overload : Overload)
  | yield
  | finish (result : R)
  | threadEnd
  | cancel
  | pick (x : ResumeMsg)
  | run (x : ResumeMsg)
  | ret

variable {R : Type}

namespace State

def wake (s : State R) (call : Nat) (event : Event) : State R :=
  let r := s.wrapper_.wake s.mail call event
  { s with wrapper_ := r.1, mail := r.2 }

/-- `operator ()` up to its `Yield` -/
def call (s : State R) (co : Nat) (_timeout : Int) (overload : Overload) : State R :=
  let n := s.calls
  let r := s.wrapper_.arm s.mail co n _timeout
  { s with
    wrapper_ := r.1
    mail := r.2
    calls := n + 1
    current := some { call := n, co, _timeout, overload, started := s.thread_.isNone }
    thread_ := some (s.thread_.getD { call := n }) }

def finish (s : State R) (call : Nat) (result : R) : State R :=
  let s : State R := { s with
    thread_ := some { call, ended := true }
    results := Function.update s.results call (some result)
    log := s.log ++ [.finished call result] }
  s.wake call .kFinish

def cancel (s : State R) : State R :=
  let s : State R := { s with current := s.current.map fun (c : Call) => { c with cancelled := true } }
  s.wake (s.calls - 1) .kCancel

/-- the loop of the coroutine is not under it -/
def loopFree (s : State R) (co : Nat) : Bool :=
  s.current.all fun c => c.co != co || c.place == .waiting

/-- `push_obj_` -/
def run (s : State R) (x : ResumeMsg) : State R :=
  let s : State R := { s with mail := s.mail.run x }
  match s.current.filter (fun c => c.co == x.co && c.place == .waiting) with
  | some c =>
    { s with current := some { c with place := .resumed }, log := s.log ++ [.resumed c.call x] }
  | none => { s with log := s.log ++ [.stray x] }

/-- behind the `Yield`; a function that was not started has left no result to hand to the callback -/
def ret (s : State R) (c : Call) : Option (State R) :=
  let result := match c.overload with
    | .value => s.results c.call
    | .void => none
  let s : State R := { s with
    current := none
    log := s.log ++ [.returned c.call c.overload s.wrapper_.status result] }
  if c.started then some s
  else
    match c.overload with
    | .value => none
    | .void => some (s.wake c.call .kFinish)

end State

def step (s : State R) : Act R → Option (State R)
  | .call co _timeout overload =>
    if s.current = none then some (s.call co _timeout overload) else none
  | .yield => s.current.bind fun c =>
    if c.place = .called then some { s with current := some { c with place := .waiting } } else none
  | .finish result => s.thread_.bind fun t =>
    if t.ended then none else some (s.finish t.call result)
  | .threadEnd => s.thread_.bind fun t =>
    if t.ended then some { s with thread_ := none } else none
  | .cancel => some s.cancel
  | .pick x => if x ∈ s.mail.queue ∧ s.loopFree x.co then some { s with mail := s.mail.pick x } else none
  | .run x => if x ∈ s.mail.hands then some (s.run x) else none
  | .ret => s.current.bind fun c =>
    if c.place = .resumed then s.ret c else none

/-- a call comes where no earlier one was resumed by `Finish` or `Cancel`, it has a time-out if one
before had, and the thread does not run -/
def Fresh (s : State R) : Act R → Prop
  | .call _ _timeout _ => s.wrapper_.message_running = none ∧
      (_timeout < 0 → s.wrapper_.message_timeout = none) ∧ s.thread_ = none
  | _ => True

/-! ## what the object is for -/

/-- the messages that have resumed a call -/
def resumes (log : List (Mark R)) (n : Nat) : List ResumeMsg :=
  log.filterMap fun
    | .resumed k x => if k = n then some x else none
    | _ => none

/-- a call returned after one resumption, by the event it reports -/
def Told (log : List (Mark R)) (n : Nat) (overload : Overload) (status : Event)
    (result : Option R) : Prop :=
  ∃ x, resumes log n = [x] ∧ x.call = n ∧ x.event = status ∧ (status = .kFinish →
    ∃ v, .finished n v ∈ log ∧ (overload = .value → result = some v))

/-- a call that goes on waiting has its message on the way, or nothing has come yet: there is no
time-out, no `Cancel` and its function runs -/
def Owed (s : State R) (c : Call) : Prop :=
  resumes s.log c.call = [] ∧
  ((∃ x, s.mail.queue ++ s.mail.hands = [x] ∧ x.co = c.co ∧ x.call = c.call) ∨
    (s.mail.queue ++ s.mail.hands = [] ∧ c._timeout < 0 ∧ c.cancelled = false ∧
      s.thread_ = some { call := c.call }))

/-- every call is resumed once, by the event it reports -/
structure Served (s : State R) : Prop where
  alone : ∀ x, .stray x ∉ s.log
  told : ∀ n overload status result, .returned n overload status result ∈ s.log →
    Told s.log n overload status result
  owed : ∀ c, s.current = some c → c.place ≠ .resumed → Owed s c
  resumed : ∀ c, s.current = some c → c.place = .resumed →
    ∃ x, resumes s.log c.call = [x] ∧ x.call = c.call ∧ x.event = s.wrapper_.status

/-! ## the object in a call -/

structure Idle (s : State R) : Prop where
  queue : s.mail.queue = []
  hands : s.mail.hands = []
  shut : s.wrapper_.Shut
  status : s.wrapper_.message_running = none → s.wrapper_.status = .kTimeout

structure Going (s : State R) (c : Call) (st : Stage) : Prop where
  rep : Rep s.wrapper_ s.mail c.co c.call st
  number : c.call + 1 = s.calls
  started : c.started = true
  hands : c.place = .called → s.mail.hands = []
  done : c.place = .resumed ↔ ∃ event, st = .done event
  open_ : st.event = none → st = .open_ (decide (0 ≤ c._timeout)) ∧ c.cancelled = false ∧
    s.thread_ = some { call := c.call }
  thread : ∀ t, s.thread_ = some t → t.call = c.call
  result : st.event = some .kFinish → (∃ v, s.results c.call = some v) ∧
    ∀ t, s.thread_ = some t → t.ended = true
  before : c.place ≠ .resumed → resumes s.log c.call = []
  after : ∀ event, st = .done event →
    ∃ x, resumes s.log c.call = [x] ∧ x.call = c.call ∧ x.event = event

structure Past (s : State R) : Prop where
  alone : ∀ x, .stray x ∉ s.log
  told : ∀ n overload status result, .returned n overload status result ∈ s.log →
    Told s.log n overload status result
  past : ∀ n overload status result, .returned n overload status result ∈ s.log →
    n < s.calls ∧ ∀ c, s.current = some c → n ≠ c.call
  new : ∀ n, s.calls ≤ n → resumes s.log n = []
  results : ∀ n v, s.results n = some v → .finished n v ∈ s.log

structure Inv (s : State R) : Prop where
  idle : s.current = none → Idle s
  going : ∀ c, s.current = some c → ∃ st, Going s c st
  past : Past s

section
variable {s s' : State R} {c : Call} {st : Stage} {n : Nat} {event : Event}

theorem resumes_append (l l' : List (Mark R)) (n : Nat) :
    resumes (l ++ l') n = resumes l n ++ resumes l' n := List.filterMap_append

theorem resumes_other {m : Mark R} (hm : ∀ k x, m ≠ .resumed k x) (n : Nat) :
    resumes [m] n = [] := by
  cases m with
  | resumed k x => exact absurd rfl (hm k x)
  | finished | stray | returned => rfl

theorem resumes_snoc (log : List (Mark R)) {m : Mark R} (hm : ∀ k x, m ≠ .resumed k x) (n : Nat) :
    resumes (log ++ [m]) n = resumes log n := by
  rw [resumes_append, resumes_other hm, List.append_nil]

theorem resumes_self (x : ResumeMsg) : resumes [Mark.resumed (R := R) n x] n = [x] := by
  unfold resumes
  simp

theorem resumes_ne {k : Nat} (h : k ≠ n) (x : ResumeMsg) :
    resumes [Mark.resumed (R := R) k x] n = [] := by
  unfold resumes
  simp [h]

theorem Told.append {log l : List (Mark R)} {overload : Overload} {status : Event}
    {result : Option R} (h : Told log n overload status result) (hl : resumes l n = []) :
    Told (log ++ l) n overload status result := by
  obtain ⟨x, hx, hcall, hev, hfin⟩ := h
  refine ⟨x, ?_, hcall, hev, fun hs => ?_⟩
  · rw [resumes_append, hx, hl]
    rfl
  · obtain ⟨v, hv, hr⟩ := hfin hs
    exact ⟨v, List.mem_append_left _ hv, hr⟩

theorem Past.mark {m : Mark R} (h : Past s) (hlog : s'.log = s.log ++ [m])
    (hm : ∀ k x, m ≠ .resumed k x) (hm' : ∀ x, m ≠ .stray x)
    (hm'' : ∀ n overload status result, m ≠ .returned n overload status result)
    (hcalls : s'.calls = s.calls) (hcur : s'.current = s.current)
    (hres : ∀ n v, s'.results n = some v → .finished n v ∈ s'.log) : Past s' := by
  constructor
  · intro x hx
    rw [hlog] at hx
    rcases List.mem_append.mp hx with hx | hx
    · exact h.alone x hx
    · exact hm' x (List.mem_singleton.mp hx).symm
  · intro n overload status result hx
    rw [hlog] at hx ⊢
    rcases List.mem_append.mp hx with hx | hx
    · exact (h.told n overload status result hx).append (resumes_other hm n)
    · exact absurd (List.mem_singleton.mp hx).symm (hm'' n overload status result)
  · intro n overload status result hx
    rw [hlog] at hx
    rw [hcalls, hcur]
    rcases List.mem_append.mp hx with hx | hx
    · exact h.past n overload status result hx
    · exact absurd (List.mem_singleton.mp hx).symm (hm'' n overload status result)
  · intro n hn
    rw [hcalls] at hn
    rw [hlog, resumes_snoc _ hm]
    exact h.new n hn
  · exact hres

theorem Past.same (h : Past s) (hlog : s'.log = s.log) (hcalls : s'.calls = s.calls)
    (hcur : ∀ c', s'.current = some c' → ∃ c, s.current = some c ∧ c'.call = c.call)
    (hres : s'.results = s.results) : Past s' := by
  constructor
  · rw [hlog]
    exact h.alone
  · rw [hlog]
    exact h.told
  · intro n overload status result hx
    rw [hlog] at hx
    obtain ⟨hn, hc⟩ := h.past n overload status result hx
    refine ⟨hcalls ▸ hn, fun c' hc' => ?_⟩
    obtain ⟨c, hcc, heq⟩ := hcur c' hc'
    rw [heq]
    exact hc c hcc
  · rw [hlog, hcalls]
    exact h.new
  · rw [hlog, hres]
    exact h.results

/-! ## the steps -/

theorem Inv.call (h : Inv s) (hnone : s.current = none) {co : Nat} {_timeout : Int}
    {overload : Overload} (hf : Fresh s (.call co _timeout overload)) :
    Inv (s.call co _timeout overload) := by
  obtain ⟨hrun, ht, hthread⟩ := hf
  have hidle := h.idle hnone
  have hnew := h.past.new s.calls (Nat.le_refl _)
  have hbusy : s.thread_.getD { call := s.calls } = { call := s.calls } := by
    rw [hthread]
    rfl
  refine ⟨fun hc => ?_, fun c hc => ?_, ?_⟩
  · cases hc
  · cases hc
    refine ⟨.open_ (decide (0 ≤ _timeout)), ?_⟩
    refine ⟨Rep.arm hrun (hidle.status hrun) hidle.queue hidle.hands ht, rfl, ?_, fun _ => ?_, ?_, ?_,
      ?_, ?_, fun _ => hnew, ?_⟩
    · show s.thread_.isNone = true
      rw [hthread]
      rfl
    · show (s.wrapper_.arm s.mail co s.calls _timeout).2.hands = []
      unfold Wrapper_.arm
      split
      · exact hidle.hands
      · exact hidle.hands
    · refine ⟨fun he => ?_, fun he => ?_⟩
      · cases he
      · obtain ⟨event, he⟩ := he
        cases he
    · intro _
      exact ⟨rfl, rfl, congrArg some hbusy⟩
    · intro t htt
      have : t = { call := s.calls } := (Option.some.inj htt).symm.trans hbusy
      rw [this]
    · intro he
      cases he
    · intro event he
      cases he
  · constructor
    · exact h.past.alone
    · exact h.past.told
    · intro n overload status result hx
      have hn := (h.past.past n overload status result hx).1
      refine ⟨Nat.lt_succ_of_lt hn, fun c hc => ?_⟩
      cases hc
      exact Nat.ne_of_lt hn
    · intro n hn
      exact h.past.new n (Nat.le_of_succ_le hn)
    · exact h.past.results

theorem Going.yield (hg : Going s c st) (hp : c.place = .called) :
    Going { s with current := some { c with place := .waiting } } { c with place := .waiting } st := by
  have hne : c.place ≠ .resumed := by
    rw [hp]
    exact fun he => nomatch he
  refine ⟨hg.rep, hg.number, hg.started, fun he => ?_, ⟨fun he => ?_, fun he => ?_⟩, hg.open_,
    hg.thread, hg.result, fun _ => hg.before hne, hg.after⟩
  · cases he
  · cases he
  · exact absurd (hg.done.mpr he) hne

theorem Inv.yield (h : Inv s) (hc : s.current = some c) (hp : c.place = .called) :
    Inv { s with current := some { c with place := .waiting } } := by
  obtain ⟨st, hg⟩ := h.going c hc
  refine ⟨fun hn => ?_, fun d hd => ?_, h.past.same rfl rfl (fun d hd => ?_) rfl⟩
  · cases hn
  · cases hd
    exact ⟨st, hg.yield hp⟩
  · cases hd
    exact ⟨c, hc, rfl⟩

theorem Idle.wake (h : Idle s) (n : Nat) (event : Event) : s.wake n event = s := by
  unfold State.wake
  rw [h.shut.wake h.queue]

theorem Going.wake (h : Going s c st) (hev : event ≠ .kTimeout) {c' : Call} (hw : s'.wrapper_ = s.wrapper_)
    (hmail : s'.mail = s.mail) (hcalls : s'.calls = s.calls)
    (hc : c'.call = c.call ∧ c'.co = c.co ∧ c'.started = c.started ∧ c'.place = c.place)
    (hthread : ∀ t, s'.thread_ = some t → t.call = c.call)
    (hres : (event = .kFinish ∨ st.event = some .kFinish) →
      (∃ v, s'.results c.call = some v) ∧ ∀ t, s'.thread_ = some t → t.ended = true)
    (hlog : resumes s'.log c.call = resumes s.log c.call) :
    Going (s'.wake c.call event) c' (st.wake event) := by
  obtain ⟨hcall, hco, hstart, hplace⟩ := hc
  constructor
  · show Rep (s'.wrapper_.wake s'.mail c.call event).1 (s'.wrapper_.wake s'.mail c.call event).2 _ _ _
    rw [hw, hmail, hcall, hco]
    exact h.rep.wake hev
  · rw [hcall]
    exact h.number.trans hcalls.symm
  · rw [hstart]
    exact h.started
  · intro hp
    show (s'.wrapper_.wake s'.mail c.call event).2.hands = []
    rw [wake_hands, hmail]
    exact h.hands (hplace ▸ hp)
  · rw [hplace, h.done]
    exact exists_congr fun e => (Stage.wake_done st event e).symm
  · intro he
    exact absurd he (Stage.wake_event st event)
  · intro t ht
    rw [hcall]
    exact hthread t ht
  · intro he
    rw [hcall]
    obtain he | he := Stage.wake_by he
    · exact hres (Or.inl he.symm)
    · exact hres (Or.inr he)
  · intro hp
    rw [hcall]
    exact hlog.trans (h.before (hplace ▸ hp))
  · intro e he
    rw [hcall]
    show ∃ x, resumes s'.log c.call = [x] ∧ _
    rw [hlog]
    exact h.after e ((Stage.wake_done st event e).mp he)

theorem Going.finish (hg : Going s c st) {t : Worker} (ht : s.thread_ = some t) (result : R) :
    Going (s.finish t.call result) c (st.wake .kFinish) := by
  unfold State.finish
  rw [hg.thread t ht]
  refine hg.wake ?_ rfl rfl rfl ⟨rfl, rfl, rfl, rfl⟩ (fun t' ht' => ?_) (fun _ => ?_) ?_
  · exact fun he => nomatch he
  · cases ht'
    rfl
  · refine ⟨⟨result, Function.update_self _ _ _⟩, fun t' ht' => ?_⟩
    cases ht'
    rfl
  · exact resumes_snoc s.log (fun k x he => by cases he) c.call

theorem Going.cancel (hg : Going s c st) : Going s.cancel { c with cancelled := true } (st.wake .kCancel) := by
  have hn : s.calls - 1 = c.call := by
    rw [← hg.number]
    rfl
  unfold State.cancel
  dsimp only
  rw [hn]
  refine hg.wake ?_ rfl rfl rfl ⟨rfl, rfl, rfl, rfl⟩ hg.thread (fun he => ?_) rfl
  · exact fun he => nomatch he
  · obtain he | he := he
    · cases he
    · exact hg.result he

theorem Inv.finish (h : Inv s) {t : Worker} (ht : s.thread_ = some t) (result : R) :
    Inv (s.finish t.call result) := by
  have hpast : Past (s.finish t.call result) := by
    refine h.past.mark (m := .finished t.call result) rfl ?_ ?_ ?_ rfl rfl ?_
    · exact fun k x he => nomatch he
    · exact fun x he => nomatch he
    · exact fun n o st r he => nomatch he
    · intro n v hv
      by_cases hn : n = t.call
      · subst hn
        have hv' : some result = some v := (Function.update_self t.call _ _).symm.trans hv
        cases hv'
        exact List.mem_append_right _ (List.mem_singleton.mpr rfl)
      · have hv' : s.results n = some v := (Function.update_of_ne hn _ _).symm.trans hv
        exact List.mem_append_left _ (h.past.results n v hv')
  refine ⟨fun hc => ?_, fun c hc => ?_, hpast⟩
  · have hidle := h.idle hc
    unfold State.finish State.wake
    dsimp only
    rw [hidle.shut.wake hidle.queue]
    exact ⟨hidle.queue, hidle.hands, hidle.shut, hidle.status⟩
  · obtain ⟨st, hg⟩ := h.going c hc
    exact ⟨_, hg.finish ht result⟩

theorem Inv.cancel (h : Inv s) : Inv s.cancel := by
  have hcur : s.cancel.current = s.current.map fun (c : Call) => { c with cancelled := true } := rfl
  refine ⟨fun hc => ?_, fun c' hc => ?_, h.past.same rfl rfl (fun c' hc => ?_) rfl⟩
  · have hidle := h.idle (Option.map_eq_none_iff.mp hc)
    unfold State.cancel State.wake
    dsimp only
    rw [hidle.shut.wake hidle.queue]
    exact ⟨hidle.queue, hidle.hands, hidle.shut, hidle.status⟩
  · obtain ⟨c, hcc, rfl⟩ := Option.map_eq_some_iff.mp (hcur.symm.trans hc)
    obtain ⟨st, hg⟩ := h.going c hcc
    exact ⟨_, hg.cancel⟩
  · obtain ⟨c, hcc, rfl⟩ := Option.map_eq_some_iff.mp (hcur.symm.trans hc)
    exact ⟨c, hcc, rfl⟩

theorem Going.threadEnd (hg : Going s c st) {t : Worker} (ht : s.thread_ = some t)
    (hover : t.ended = true) : Going { s with thread_ := none } c st := by
  refine ⟨hg.rep, hg.number, hg.started, hg.hands, hg.done, fun he => ?_, fun t ht => ?_,
    fun he => ⟨(hg.result he).1, fun t ht => ?_⟩, hg.before, hg.after⟩
  · -- a function that has ended is an event
    rw [(hg.open_ he).2.2] at ht
    cases ht
    cases hover
  · cases ht
  · cases ht

theorem Inv.threadEnd (h : Inv s) {t : Worker} (ht : s.thread_ = some t) (hover : t.ended = true) :
    Inv { s with thread_ := none } := by
  refine ⟨fun hc => ?_, fun c hc => ?_, h.past.same rfl rfl (fun c hc => ⟨c, hc, rfl⟩) rfl⟩
  · obtain ⟨hq, hh, hshut, hst⟩ := h.idle hc
    exact ⟨hq, hh, hshut, hst⟩
  · obtain ⟨st, hg⟩ := h.going c hc
    exact ⟨st, hg.threadEnd ht hover⟩

theorem Going.pick (hg : Going s c st) (hc : s.current = some c) {x : ResumeMsg}
    (hx : x ∈ s.mail.queue) (hfree : s.loopFree x.co = true) :
    ∃ st', st.pick = some st' ∧ Going { s with mail := s.mail.pick x } c st' := by
  obtain ⟨hco, -, st', hst', hrep⟩ := hg.rep.pick hx
  have hwait : c.place = .waiting := by
    unfold State.loopFree at hfree
    rw [hc, hco] at hfree
    simpa using hfree
  refine ⟨st', hst', ?_⟩
  obtain ⟨e, rfl, hst⟩ := Stage.pick_some hst'
  have hgone : st.event = some .kFinish ∨ e ≠ .kFinish := by
    obtain ⟨-, rfl⟩ | rfl := hst
    · exact Or.inr (fun he => nomatch he)
    · cases e <;> simp [Stage.event]
  refine ⟨hrep, hg.number, hg.started, fun he => ?_, ⟨fun he => ?_, fun he => ?_⟩, fun he => ?_,
    hg.thread, fun he => ?_, hg.before, fun e' he => ?_⟩
  · rw [hwait] at he
    cases he
  · rw [hwait] at he
    cases he
  · obtain ⟨e', he⟩ := he
    cases he
  · cases he
  · obtain h | h := hgone
    · exact hg.result h
    · exact absurd (Option.some.inj he) h
  · cases he

theorem Inv.pick (h : Inv s) {x : ResumeMsg} (hx : x ∈ s.mail.queue)
    (hfree : s.loopFree x.co = true) : Inv { s with mail := s.mail.pick x } := by
  refine ⟨fun hc => ?_, fun c hc => ?_, h.past.same rfl rfl (fun c hc => ⟨c, hc, rfl⟩) rfl⟩
  · rw [(h.idle hc).queue] at hx
    cases hx
  · obtain ⟨st, hg⟩ := h.going c hc
    obtain ⟨st', -, hg'⟩ := hg.pick hc hx hfree
    exact ⟨st', hg'⟩

/-- a message that is run finds the call waiting for it -/
theorem Going.run (hg : Going s c st) (hc : s.current = some c) {x : ResumeMsg}
    (hx : x ∈ s.mail.hands) : st = .handed x.event ∧ s.run x = { s with
      mail := s.mail.run x
      current := some { c with place := .resumed }
      log := s.log ++ [.resumed c.call x] } ∧
    Going (s.run x) { c with place := .resumed } (.done x.event) := by
  obtain ⟨hco, hcall, rfl, hrep⟩ := hg.rep.run hx
  have hwait : c.place = .waiting := by
    cases hp : c.place with
    | called =>
      rw [hg.hands hp] at hx
      cases hx
    | waiting => rfl
    | resumed =>
      obtain ⟨e, he⟩ := hg.done.mp hp
      cases he
  have hrun : s.run x = { s with
      mail := s.mail.run x
      current := some { c with place := .resumed }
      log := s.log ++ [.resumed c.call x] } := by
    have hfilter : Option.filter (fun d : Call => d.co == x.co && d.place == .waiting) (some c) =
        some c := by
      simp [Option.filter, hco, hwait]
    unfold State.run
    dsimp only
    rw [hc, hfilter]
  have hnone : resumes s.log c.call = [] := by
    refine hg.before ?_
    rw [hwait]
    exact fun he => nomatch he
  refine ⟨rfl, hrun, ?_⟩
  rw [hrun]
  refine ⟨hrep, hg.number, hg.started, fun he => ?_, ⟨fun _ => ⟨_, rfl⟩, fun _ => rfl⟩, fun he => ?_,
    hg.thread, hg.result, fun he => absurd rfl he, fun e he => ?_⟩
  · cases he
  · cases he
  · cases he
    refine ⟨x, ?_, hcall, rfl⟩
    show resumes (s.log ++ [.resumed c.call x]) c.call = _
    rw [resumes_append, hnone, resumes_self]
    rfl

theorem Inv.run (h : Inv s) {x : ResumeMsg} (hx : x ∈ s.mail.hands) : Inv (s.run x) := by
  cases hc : s.current with
  | none =>
    rw [(h.idle hc).hands] at hx
    cases hx
  | some c =>
    obtain ⟨st, hg⟩ := h.going c hc
    obtain ⟨-, hrun, hg'⟩ := hg.run hc hx
    have hcur : (s.run x).current = some { c with place := .resumed } := by
      rw [hrun]
    refine ⟨fun hd => ?_, fun d hd => ?_, ?_⟩
    · rw [hcur] at hd
      cases hd
    · rw [hcur] at hd
      cases hd
      exact ⟨_, hg'⟩
    rw [hrun]
    constructor
    · intro y hy
      rcases List.mem_append.mp hy with hy | hy
      · exact h.past.alone y hy
      · cases List.mem_singleton.mp hy
    · intro n overload status result hr
      rcases List.mem_append.mp hr with hr | hr
      · refine (h.past.told n overload status result hr).append (resumes_ne ?_ x)
        exact ((h.past.past n overload status result hr).2 c hc).symm
      · cases List.mem_singleton.mp hr
    · intro n overload status result hr
      rcases List.mem_append.mp hr with hr | hr
      · obtain ⟨hn, hcur⟩ := h.past.past n overload status result hr
        refine ⟨hn, fun d hd => ?_⟩
        cases hd
        exact hcur c hc
      · cases List.mem_singleton.mp hr
    · intro n hn
      show resumes (s.log ++ [.resumed c.call x]) n = []
      have hlt : c.call < n := by
        have := hg.number
        have : s.calls ≤ n := hn
        omega
      rw [resumes_append, h.past.new n hn, resumes_ne (Nat.ne_of_lt hlt)]
      rfl
    · exact fun n v hv => List.mem_append_left _ (h.past.results n v hv)

theorem Inv.ret (h : Inv s) (hc : s.current = some c) (hp : c.place = .resumed)
    (hs : s.ret c = some s') : Inv s' := by
  obtain ⟨st, hg⟩ := h.going c hc
  obtain ⟨event, rfl⟩ := hg.done.mp hp
  obtain ⟨hshut, hst, hrun, hq, hh⟩ := hg.rep
  unfold State.ret at hs
  dsimp only at hs
  rw [if_pos hg.started] at hs
  cases hs
  refine ⟨fun _ => ⟨hq, hh, hshut, fun hr => hst.trans (hrun hr)⟩, fun d hd => ?_, ?_⟩
  · cases hd
  constructor
  · intro y hy
    rcases List.mem_append.mp hy with hy | hy
    · exact h.past.alone y hy
    · cases List.mem_singleton.mp hy
  · intro n overload status result hr
    rcases List.mem_append.mp hr with hr | hr
    · exact (h.past.told n overload status result hr).append
        (resumes_other (fun k x he => by cases he) n)
    · cases List.mem_singleton.mp hr
      obtain ⟨x, hx, hcall, hev⟩ := hg.after event rfl
      refine ⟨x, (resumes_snoc s.log (fun k x he => by cases he) _).trans hx, hcall, hev.trans hst.symm, ?_⟩
      intro hfin
      obtain ⟨v, hv⟩ := (hg.result (congrArg some (hst.symm.trans hfin))).1
      refine ⟨v, List.mem_append_left _ (h.past.results _ v hv), fun ho => ?_⟩
      rw [ho]
      exact hv
  · intro n overload status result hr
    refine ⟨?_, fun d hd => by cases hd⟩
    rcases List.mem_append.mp hr with hr | hr
    · exact (h.past.past n overload status result hr).1
    · cases List.mem_singleton.mp hr
      show c.call < s.calls
      rw [← hg.number]
      exact Nat.lt_succ_self _
  · intro n hn
    exact (resumes_snoc s.log (fun k x he => by cases he) n).trans (h.past.new n hn)
  · exact fun n v hv => List.mem_append_left _ (h.past.results n v hv)

theorem step_inv {a : Act R} (h : Inv s) (hf : Fresh s a) (hs : step s a = some s') : Inv s' := by
  cases a with
  | call co _timeout overload =>
    obtain ⟨hc, hs⟩ := Option.ite_none_right_eq_some.mp hs
    cases hs
    exact h.call hc hf
  | yield =>
    obtain ⟨c, hc, hs⟩ := Option.bind_eq_some_iff.mp hs
    obtain ⟨hp, hs⟩ := Option.ite_none_right_eq_some.mp hs
    cases hs
    exact h.yield hc hp
  | finish result =>
    obtain ⟨t, ht, hs⟩ := Option.bind_eq_some_iff.mp hs
    obtain ⟨-, hs⟩ := Option.ite_none_left_eq_some.mp hs
    cases hs
    exact h.finish ht result
  | threadEnd =>
    obtain ⟨t, ht, hs⟩ := Option.bind_eq_some_iff.mp hs
    obtain ⟨hover, hs⟩ := Option.ite_none_right_eq_some.mp hs
    cases hs
    exact h.threadEnd ht hover
  | cancel =>
    cases hs
    exact h.cancel
  | pick x =>
    obtain ⟨⟨hx, hfree⟩, hs⟩ := Option.ite_none_right_eq_some.mp hs
    cases hs
    exact h.pick hx hfree
  | run x =>
    obtain ⟨hx, hs⟩ := Option.ite_none_right_eq_some.mp hs
    cases hs
    exact h.run hx
  | ret =>
    obtain ⟨c, hc, hs⟩ := Option.bind_eq_some_iff.mp hs
    obtain ⟨hp, hs⟩ := Option.ite_none_right_eq_some.mp hs
    exact h.ret hc hp hs

/-! ## every run -/

theorem Inv.init : Inv ({} : State R) := by
  refine ⟨fun _ => ⟨rfl, rfl, Or.inl rfl, fun _ => rfl⟩, fun c hc => ?_, ?_⟩
  · cases hc
  · refine ⟨fun x hx => ?_, fun n o st r hr => ?_, fun n o st r hr => ?_, fun _ _ => rfl,
      fun n v hv => ?_⟩
    · cases hx
    · cases hr
    · cases hr
    · cases hv

theorem Inv.served (h : Inv s) : Served s := by
  refine ⟨h.past.alone, h.past.told, fun c hc hp => ?_, fun c hc hp => ?_⟩
  · obtain ⟨st, hg⟩ := h.going c hc
    have hrep := hg.rep
    refine ⟨hg.before hp, ?_⟩
    match st with
    | .open_ false =>
      obtain ⟨-, -, -, -, hq, hh⟩ := hrep
      obtain ⟨hst, hcancel, hthread⟩ := hg.open_ rfl
      refine Or.inr ⟨?_, ?_, hcancel, hthread⟩
      · rw [hq, hh]
        rfl
      · have := of_decide_eq_false (Stage.open_.inj hst).symm
        omega
    | .open_ true =>
      obtain ⟨-, -, -, id, -, hq, hh⟩ := hrep
      refine Or.inl ⟨⟨id, c.co, c.call, .kTimeout⟩, ?_, rfl, rfl⟩
      rw [hq, hh]
      rfl
    | .posted e =>
      obtain ⟨-, -, -, id, hq, hh⟩ := hrep
      refine Or.inl ⟨⟨id, c.co, c.call, e⟩, ?_, rfl, rfl⟩
      rw [hq, hh]
      rfl
    | .handed e =>
      obtain ⟨-, -, -, id, hq, hh⟩ := hrep
      refine Or.inl ⟨⟨id, c.co, c.call, e⟩, ?_, rfl, rfl⟩
      rw [hq, hh]
      rfl
    | .done e => exact absurd (hg.done.mpr ⟨e, rfl⟩) hp
  · obtain ⟨st, hg⟩ := h.going c hc
    obtain ⟨e, rfl⟩ := hg.done.mp hp
    obtain ⟨x, hx, hcall, hev⟩ := hg.after e rfl
    exact ⟨x, hx, hcall, hev.trans hg.rep.2.1.symm⟩

/-- **Where every call finds the object fresh, each is resumed once, by the event it reports.** -/
theorem wait_once (h : Run step Fresh ({} : State R) s) : Served s :=
  Inv.served (h.keep (fun _ _ _ hi hf hs => step_inv hi hf hs) Inv.init)

end

/-- what is left of call `n` of coroutine 0, without a time-out, when it has begun: the function ends
with `v`, and the message with id `n` is taken out and run -/
def rest (n v : Nat) : List (Act Nat) :=
  [.yield, .finish v, .pick ⟨n, 0, n, .kFinish⟩, .run ⟨n, 0, n, .kFinish⟩, .ret]

theorem wait_once_one : ∃ s, exec step {} (.call 0 (-1) .value :: rest 0 5) = some s ∧
    Told s.log 0 .value .kFinish (some 5) := by
  obtain ⟨s, hs, hmem⟩ : ∃ s, exec step {} (.call 0 (-1) .value :: rest 0 5) = some s ∧
      .returned 0 .value .kFinish (some 5) ∈ s.log := by
    refine ⟨_, rfl, ?_⟩
    decide
  obtain ⟨t, ht, hrest⟩ := Option.bind_eq_some_iff.mp hs
  have hfresh : Fresh ({} : State Nat) (.call 0 (-1) .value) := ⟨rfl, fun _ => rfl, rfl⟩
  have hrun : Run step Fresh t s := by
    refine Run.of_exec_all hrest ?_
    simp [rest, Fresh]
  exact ⟨s, hs, (wait_once ((Run.one hfresh ht).trans hrun)).told 0 _ _ _ hmem⟩

/-- a call that has ended, and another whose function has -/
def again : List (Act Nat) :=
  .call 0 (-1) .value :: rest 0 5 ++ [.threadEnd, .call 0 (-1) .value, .yield, .finish 6]

theorem wait_stuck : ¬ ∀ (s : State Nat), AnyRun step {} s → Served s := by
  intro h
  obtain ⟨s, hs, hcur, hmail, hthread⟩ : ∃ s, exec step {} again = some s ∧
      s.current = some ⟨1, 0, -1, .value, true, .waiting, false⟩ ∧
      s.mail.queue ++ s.mail.hands = [] ∧ s.thread_ = some ⟨1, true⟩ :=
    ⟨_, rfl, rfl, rfl, rfl⟩
  have howed := (h s (Run.of_exec hs)).owed _ hcur (fun he => nomatch he)
  obtain ⟨-, ⟨x, hx, -⟩ | ⟨-, -, -, ht⟩⟩ := howed
  · rw [hmail] at hx
    cases hx
  · rw [hthread] at ht
    cases ht

end Coroutine.Calls
