import LearnDiary.Lib.Runs

/-!
# AsyncResult (comm/messagequeue/message_queue.h)

An `AsyncResult` is a counted reference to an `AsyncResultWrapper`; the function object of a posted
message holds a copy of it, which goes with the message.  Whatever happens to the post, what the
wrapper sees is a list of acts: copies come and go, and the function is run or it is not.  The last
copy takes the wrapper with it.  `AsyncPosts` takes the acts from the history of a queue.

`Ptr` says where a `result` or a reference leads to; values are left out.  `fault` is set where the
code goes through a null pointer or to an object that is gone.  The object a caller gives as holder
lives as long as the caller likes (`dropHolder`).

* `Life.operatorCall`, `Life.destroy`   the four specialisations;
* `callback_once`                       when the callback comes once and all is well.
-/

namespace MessageQueue
namespace AsyncResult

/-- `AsyncResult<R>`, `AsyncResult<void>`, `AsyncResult<R&>`, `AsyncResult<const R&>` -/
inductive Special where
  | value | void | ref | constRef
deriving DecidableEq

/-- null, the wrapper's `new R`, the holder of the caller, what the function has returned a
reference to, the value it has returned -/
inductive Ptr where
  | null | own | holder | target | returned
deriving DecidableEq

structure AsyncResultWrapper where
  callback_function : Bool
  result_valid : Bool
  result : Ptr
deriving DecidableEq

/-- `_result_holder` of a constructor: none, a null pointer or an object -/
inductive Holder where
  | none | null | object
deriving DecidableEq

/-- the wrapper, `use_count` of the pointers to it, whether the caller's holder lives, and the calls
of the callback with what it gets, the newest first -/
structure Life where
  wrapper_ : AsyncResultWrapper
  use_count : Nat
  holder : Bool
  calls : List (Option Ptr × Bool)
  fault : Bool
deriving DecidableEq

/-- the constructors; only `AsyncResult<R>` looks at the holder -/
def construct (k : Special) (callback : Bool) (h : Holder) : Life where
  wrapper_ :=
    { callback_function := callback
      result_valid := false
      result := match k, h with
        | .value, .none => .own
        | .value, .object => .holder
        | _, _ => .null }
  use_count := 1
  holder := h == .object
  calls := []
  fault := false

namespace Life

def live (s : Life) : Ptr → Bool
  | .null => false
  | .holder => s.holder
  | _ => true

/-- an access to what `p` leads to -/
def deref (p : Ptr) (s : Life) : Life := { s with fault := s.fault || !s.live p }

/-- `callback_function(*p, flag)`, without a reference for `void` -/
def callback (p : Option Ptr) (flag : Bool) (s : Life) : Life :=
  if s.wrapper_.callback_function then
    let s := match p with
      | some p => s.deref p
      | none => s
    { s with calls := (p, flag) :: s.calls }
  else s

/-- `operator()`, the function itself apart -/
def operatorCall (k : Special) (s : Life) : Life :=
  match k with
  | .value =>
    let s := if s.wrapper_.result = .null then s else s.deref s.wrapper_.result
    let s := { s with wrapper_ := { s.wrapper_ with result_valid := true } }
    s.callback (some .returned) true
  | .void =>
    let s := { s with wrapper_ := { s.wrapper_ with result_valid := true } }
    s.callback none true
  | .ref | .constRef =>
    let s := { s with wrapper_ := { s.wrapper_ with result := .target, result_valid := true } }
    s.callback (some s.wrapper_.result) true

/-- `~AsyncResultWrapper`; the own result is deleted behind the callback -/
def destroy (k : Special) (s : Life) : Life :=
  if !s.wrapper_.result_valid then
    match k with
    | .void => s.callback none false
    | .value | .ref | .constRef => s.callback (some s.wrapper_.result) false
  else s

end Life

inductive Act where
  | copy | drop | run | dropHolder
deriving DecidableEq

/-- copies are made of copies; the last one destroys the wrapper -/
def step (k : Special) (s : Life) : Act → Option Life
  | .copy => if 0 < s.use_count then some { s with use_count := s.use_count + 1 } else none
  | .drop =>
    if 0 < s.use_count then
      let s := { s with use_count := s.use_count - 1 }
      some (if s.use_count = 0 then s.destroy k else s)
    else none
  | .run => if 0 < s.use_count then some (s.operatorCall k) else none
  | .dropHolder => if s.holder then some { s with holder := false } else none

/-- what is asked for: the callback has been called once, with `true` where the function ran, and
nothing was reached through a null pointer or after its end -/
def Good (callback ran : Bool) (s : Life) : Prop :=
  s.calls.map (·.2) = (if callback then [ran] else []) ∧ s.fault = false

def Before (a : Act) (l : List Act) : Prop := ∃ l₁ l₂, l = l₁ ++ .dropHolder :: l₂ ∧ a ∈ l₂

/-- the fates and holders with which an access goes wrong -/
inductive Wrong (k : Special) (callback : Bool) (h : Holder) (l : List Act) : Prop
  | ref (hk : k = .ref ∨ k = .constRef) (hc : callback = true) (hr : .run ∉ l)
  | null (hk : k = .value) (hh : h = .null) (hc : callback = true) (hr : .run ∉ l)
  | late (hk : k = .value) (hh : h = .object) (hr : Before .run l)
  | gone (hk : k = .value) (hh : h = .object) (hc : callback = true) (hr : .run ∉ l)
      (hd : Before .drop l)

/-! ## one act more -/

section
variable {a b : Act} {l : List Act}

theorem mem_snoc : a ∈ l ++ [b] ↔ a ∈ l ∨ a = b := by
  rw [List.mem_append, List.mem_singleton]

theorem before_snoc : Before a (l ++ [b]) ↔ Before a l ∨ (a = b ∧ .dropHolder ∈ l) := by
  constructor
  · rintro ⟨l₁, l₂, hl, ha⟩
    rcases List.eq_nil_or_concat l₂ with rfl | ⟨l₂, c, rfl⟩
    · cases ha
    · have hsplit : l ++ [b] = (l₁ ++ .dropHolder :: l₂) ++ [c] := by
        rw [hl, List.append_assoc, List.concat_eq_append]
        rfl
      obtain ⟨rfl, hc⟩ := List.append_inj' hsplit rfl
      cases hc
      rw [List.concat_eq_append] at ha
      rcases mem_snoc.mp ha with ha | rfl
      · exact Or.inl ⟨l₁, l₂, rfl, ha⟩
      · exact Or.inr ⟨rfl, List.mem_append_right _ List.mem_cons_self⟩
  · rintro (⟨l₁, l₂, rfl, ha⟩ | ⟨rfl, hd⟩)
    · exact ⟨l₁, l₂ ++ [b], by rw [List.append_assoc]; rfl, List.mem_append_left _ ha⟩
    · obtain ⟨l₁, l₂, rfl⟩ := List.append_of_mem hd
      exact ⟨l₁, l₂ ++ [a], by rw [List.append_assoc]; rfl, mem_snoc.mpr (Or.inr rfl)⟩

end

/-- what a life is like behind the acts `l` -/
structure Inv (k : Special) (callback : Bool) (h : Holder) (l : List Act) (s : Life) : Prop where
  function : s.wrapper_.callback_function = callback
  valid : s.wrapper_.result_valid = true ↔ .run ∈ l
  holder : s.holder = true ↔ h = .object ∧ .dropHolder ∉ l
  result : .run ∉ l ∨ k = .value → s.wrapper_.result = (construct k callback h).wrapper_.result
  up : 0 < s.use_count →
    s.calls.map (·.2) = (if callback = true ∧ .run ∈ l then [true] else []) ∧
    (s.fault = true ↔ k = .value ∧ h = .object ∧ Before .run l)
  down : s.use_count = 0 →
    s.calls.map (·.2) = (if callback then [decide (.run ∈ l)] else []) ∧
    (s.fault = true ↔ Wrong k callback h l)

variable {k : Special} {callback : Bool} {h : Holder} {l : List Act} {s s' : Life}

theorem Inv.init : Inv k callback h [] (construct k callback h) where
  function := rfl
  valid := ⟨(fun e => by cases e), fun e => by cases e⟩
  holder := by
    show (h == .object) = true ↔ _
    rw [beq_iff_eq]
    exact ⟨fun e => ⟨e, List.not_mem_nil⟩, fun e => e.1⟩
  result _ := rfl
  up _ := by
    refine ⟨?_, (fun e => by cases e), ?_⟩
    · rw [if_neg (fun e => List.not_mem_nil e.2)]
      rfl
    · rintro ⟨-, -, l₁, l₂, hl, -⟩
      simp at hl
  down e := by cases e

theorem Inv.count (hi : Inv k callback h l s) {n : Nat} {a : Act} (hn : 0 < n) (hs : 0 < s.use_count)
    (ha : a = .copy ∨ a = .drop) : Inv k callback h (l ++ [a]) { s with use_count := n } := by
  have hrun : Act.run ∈ l ++ [a] ↔ .run ∈ l := by
    rw [mem_snoc]
    rcases ha with rfl | rfl
    · simp
    · simp
  have hdrop : Act.dropHolder ∈ l ++ [a] ↔ .dropHolder ∈ l := by
    rw [mem_snoc]
    rcases ha with rfl | rfl
    · simp
    · simp
  have hbefore : Before .run (l ++ [a]) ↔ Before .run l := by
    rw [before_snoc]
    rcases ha with rfl | rfl
    · simp
    · simp
  refine ⟨hi.function, ?_, ?_, ?_, ?_, ?_⟩
  · rw [hrun]
    exact hi.valid
  · rw [hdrop]
    exact hi.holder
  · rw [hrun]
    exact hi.result
  · intro _
    rw [hbefore]
    simp only [hrun]
    exact hi.up hs
  · intro h0
    exact absurd h0 (Nat.ne_of_gt hn)

theorem Inv.dropHolder (hi : Inv k callback h l s) :
    Inv k callback h (l ++ [.dropHolder]) { s with holder := false } := by
  have hrun : Act.run ∈ l ++ [.dropHolder] ↔ .run ∈ l := by
    rw [mem_snoc]
    simp
  have hbefore : ∀ a, a ≠ .dropHolder → (Before a (l ++ [.dropHolder]) ↔ Before a l) := by
    intro a ha
    rw [before_snoc]
    exact ⟨fun e => e.resolve_right (fun e => ha e.1), Or.inl⟩
  have hwrong : Wrong k callback h (l ++ [.dropHolder]) ↔ Wrong k callback h l := by
    have h1 := hbefore .run (by decide)
    have h2 := hbefore .drop (by decide)
    constructor
    · rintro (⟨hk, hc, hr⟩ | ⟨hk, hh, hc, hr⟩ | ⟨hk, hh, hr⟩ | ⟨hk, hh, hc, hr, hd⟩)
      · exact .ref hk hc (fun e => hr (hrun.mpr e))
      · exact .null hk hh hc (fun e => hr (hrun.mpr e))
      · exact .late hk hh (h1.mp hr)
      · exact .gone hk hh hc (fun e => hr (hrun.mpr e)) (h2.mp hd)
    · rintro (⟨hk, hc, hr⟩ | ⟨hk, hh, hc, hr⟩ | ⟨hk, hh, hr⟩ | ⟨hk, hh, hc, hr, hd⟩)
      · exact .ref hk hc (fun e => hr (hrun.mp e))
      · exact .null hk hh hc (fun e => hr (hrun.mp e))
      · exact .late hk hh (h1.mpr hr)
      · exact .gone hk hh hc (fun e => hr (hrun.mp e)) (h2.mpr hd)
  refine ⟨hi.function, ?_, ?_, ?_, ?_, ?_⟩
  · rw [hrun]
    exact hi.valid
  · refine ⟨fun e => (by cases e), fun e => absurd (mem_snoc.mpr (Or.inr rfl)) e.2⟩
  · rw [hrun]
    exact hi.result
  · intro hs
    rw [hbefore .run (by decide)]
    simp only [hrun]
    exact hi.up hs
  · intro hs
    rw [hwrong]
    simp only [hrun]
    exact hi.down hs

/-- a call of the callback changes no more than the calls and the fault -/
theorem callback_spec (p : Option Ptr) (flag : Bool) (s : Life) :
    s.callback p flag = { s with
      calls := if s.wrapper_.callback_function then (p, flag) :: s.calls else s.calls
      fault := s.fault || (s.wrapper_.callback_function && p.any (fun p => !s.live p)) } := by
  unfold Life.callback
  cases hc : s.wrapper_.callback_function with
  | false => simp
  | true =>
    cases p with
    | none => simp
    | some p => simp [Life.deref]

theorem Before.mem {a : Act} (h : Before a l) : a ∈ l ∧ .dropHolder ∈ l := by
  obtain ⟨l₁, l₂, rfl, ha⟩ := h
  exact ⟨List.mem_append_right _ (List.mem_cons_of_mem _ ha),
    List.mem_append_right _ List.mem_cons_self⟩

theorem Inv.clean (hi : Inv k callback h l s) (hs : 0 < s.use_count) (hr : .run ∉ l) :
    s.fault = false ∧ s.calls = [] := by
  obtain ⟨h1, h2⟩ := hi.up hs
  constructor
  · by_contra hf
    exact hr (h2.mp (Bool.not_eq_false _ ▸ hf)).2.2.mem.1
  · rw [if_neg (fun e => hr e.2)] at h1
    exact List.map_eq_nil_iff.mp h1

theorem Inv.ran (hi : Inv k callback h l s) (hr : .run ∉ l) (hs : 0 < s.use_count)
    {p : Option Ptr} (hcalls : s'.calls = if callback then [(p, true)] else [])
    (hfun : s'.wrapper_.callback_function = callback) (hval : s'.wrapper_.result_valid = true)
    (hhold : s'.holder = s.holder) (hcount : s'.use_count = s.use_count)
    (hres : k = .value → s'.wrapper_.result = s.wrapper_.result)
    (hfault : s'.fault = true ↔ k = .value ∧ h = .object ∧ .dropHolder ∈ l) :
    Inv k callback h (l ++ [.run]) s' := by
  have hmem : Act.run ∈ l ++ [.run] := mem_snoc.mpr (Or.inr rfl)
  refine ⟨hfun, ⟨fun _ => hmem, fun _ => hval⟩, ?_, ?_, ?_, ?_⟩
  · rw [hhold, mem_snoc]
    simpa using hi.holder
  · rintro (hn | hk)
    · exact absurd hmem hn
    · rw [hres hk]
      exact hi.result (Or.inr hk)
  · intro _
    refine ⟨?_, ?_⟩
    · rw [hcalls]
      cases callback with
      | false => rw [if_neg (fun e => by cases e), if_neg (fun e => by cases e.1)]; rfl
      | true => rw [if_pos rfl, if_pos ⟨rfl, hmem⟩]; rfl
    · rw [hfault, before_snoc]
      constructor
      · rintro ⟨h1, h2, h3⟩
        exact ⟨h1, h2, Or.inr ⟨rfl, h3⟩⟩
      · rintro ⟨h1, h2, h3 | h3⟩
        · exact absurd h3.mem.1 hr
        · exact ⟨h1, h2, h3.2⟩
  · intro h0
    omega

theorem Inv.run (hi : Inv k callback h l s) (hs : 0 < s.use_count) (hr : .run ∉ l) :
    Inv k callback h (l ++ [.run]) (s.operatorCall k) := by
  obtain ⟨hf, hc⟩ := hi.clean hs hr
  have hfun := hi.function
  cases k with
  | void =>
    unfold Life.operatorCall
    dsimp only
    rw [callback_spec]
    refine hi.ran (p := none) hr hs ?_ hfun rfl rfl rfl (fun e => by cases e) ?_
    · show (if s.wrapper_.callback_function then _ else s.calls) = _
      rw [hfun, hc]
    · simp [hf]
  | ref | constRef =>
    unfold Life.operatorCall
    dsimp only
    rw [callback_spec]
    refine hi.ran (p := some .target) hr hs ?_ hfun rfl rfl rfl (fun e => by cases e) ?_
    · show (if s.wrapper_.callback_function then _ else s.calls) = _
      rw [hfun, hc]
    · simp [hf, Life.live]
  | value =>
    have hres := hi.result (Or.inr rfl)
    have hhold := hi.holder
    unfold Life.operatorCall
    dsimp only
    rw [callback_spec]
    cases h with
    | none | null =>
      refine hi.ran (p := some .returned) hr hs ?_ ?_ rfl ?_ ?_ ?_ ?_
      all_goals simp [hres, construct, Life.deref, Life.live, hf, hc, hfun]
    | object =>
      have hheld : s.holder = false ↔ Act.dropHolder ∈ l := by
        rw [← not_iff_not, Bool.not_eq_false, hhold]
        simp
      refine hi.ran (p := some .returned) hr hs ?_ ?_ rfl ?_ ?_ ?_ ?_
      all_goals simp [hres, construct, Life.deref, Life.live, hf, hc, hfun, hheld]

theorem run_mem_drop : .run ∈ l ++ [.drop] ↔ .run ∈ l := by
  rw [mem_snoc]
  simp

theorem before_drop : Before .drop (l ++ [.drop]) ↔ .dropHolder ∈ l := by
  rw [before_snoc]
  constructor
  · rintro (hb | hb)
    · exact hb.mem.2
    · exact hb.2
  · exact fun hd => Or.inr ⟨rfl, hd⟩

theorem before_run_drop : Before .run (l ++ [.drop]) ↔ Before .run l := by
  rw [before_snoc]
  simp

theorem Inv.gone (hi : Inv k callback h l s)
    (hcalls : s'.calls.map (·.2) = if callback then [decide (.run ∈ l)] else [])
    (hfault : s'.fault = true ↔ Wrong k callback h (l ++ [.drop]))
    (hw : s'.wrapper_ = s.wrapper_) (hhold : s'.holder = s.holder) (hcount : s'.use_count = 0) :
    Inv k callback h (l ++ [.drop]) s' := by
  refine ⟨?_, ?_, ?_, ?_, ?_, ?_⟩
  · rw [hw]
    exact hi.function
  · rw [hw, run_mem_drop]
    exact hi.valid
  · rw [hhold, mem_snoc]
    simpa using hi.holder
  · rw [hw, run_mem_drop]
    exact hi.result
  · intro h0
    omega
  · intro _
    refine ⟨?_, hfault⟩
    simp only [run_mem_drop]
    exact hcalls

theorem Inv.destroy (hi : Inv k callback h l s) (hs : 0 < s.use_count) :
    Inv k callback h (l ++ [.drop]) (Life.destroy k { s with use_count := 0 }) := by
  have hfun := hi.function
  unfold Life.destroy
  by_cases hr : .run ∈ l
  · have hval : s.wrapper_.result_valid = true := hi.valid.mpr hr
    obtain ⟨h1, h2⟩ := hi.up hs
    dsimp only
    rw [hval]
    refine hi.gone ?_ ?_ rfl rfl rfl
    · show s.calls.map _ = _
      rw [h1, decide_eq_true hr]
      cases callback with
      | false => rw [if_neg (fun e => by cases e.1), if_neg (fun e => by cases e)]
      | true => rw [if_pos ⟨rfl, hr⟩, if_pos rfl]
    · refine h2.trans ⟨fun ⟨hk, hh, hb⟩ => .late hk hh (before_run_drop.mpr hb), ?_⟩
      rintro (⟨-, -, hn⟩ | ⟨-, -, -, hn⟩ | ⟨hk, hh, hb⟩ | ⟨-, -, -, hn, -⟩)
      · exact absurd (run_mem_drop.mpr hr) hn
      · exact absurd (run_mem_drop.mpr hr) hn
      · exact ⟨hk, hh, before_run_drop.mp hb⟩
      · exact absurd (run_mem_drop.mpr hr) hn
  · have hval : s.wrapper_.result_valid = false := Bool.eq_false_iff.mpr (fun e => hr (hi.valid.mp e))
    have hr' : .run ∉ l ++ [.drop] := fun e => hr (run_mem_drop.mp e)
    have hlate : ¬ Before .run (l ++ [.drop]) := fun e => hr (before_run_drop.mp e).mem.1
    obtain ⟨hf, hc⟩ := hi.clean hs hr
    have hres := hi.result (Or.inl hr)
    dsimp only
    rw [hval]
    cases k with
    | void =>
      refine hi.gone ?_ ?_ ?_ ?_ ?_
      · simp [callback_spec, hfun, hc, hr]
        cases callback <;> rfl
      · refine ⟨fun e => ?_, ?_⟩
        · simp [callback_spec, hf] at e
        · rintro (⟨hk | hk, -, -⟩ | ⟨hk, -⟩ | ⟨hk, -⟩ | ⟨hk, -⟩)
          all_goals cases hk
      all_goals simp [callback_spec]
    | ref | constRef =>
      refine hi.gone ?_ ?_ ?_ ?_ ?_
      · simp [callback_spec, hfun, hc, hr]
        cases callback <;> rfl
      · refine ⟨fun e => ?_, ?_⟩
        · simp [callback_spec, hf, hfun] at e
          exact .ref (by simp) e.1 hr'
        · rintro (⟨-, he, -⟩ | ⟨hk, -⟩ | ⟨hk, -⟩ | ⟨hk, -⟩)
          · simp [callback_spec, hfun, hf, hres, construct, Life.live, he]
          all_goals cases hk
      all_goals simp [callback_spec]
    | value =>
      refine hi.gone ?_ ?_ ?_ ?_ ?_
      · simp [callback_spec, hfun, hc, hr]
        cases callback <;> rfl
      · cases h with
        | none =>
          refine ⟨fun e => ?_, ?_⟩
          · simp [callback_spec, hf, hfun, hres, construct, Life.live] at e
          · rintro (⟨hk | hk, -, -⟩ | ⟨-, hk, -⟩ | ⟨-, hk, -⟩ | ⟨-, hk, -⟩)
            all_goals cases hk
        | null =>
          refine ⟨fun e => ?_, ?_⟩
          · simp [callback_spec, hf, hfun, hres, construct, Life.live] at e
            exact .null rfl rfl e hr'
          · rintro (⟨hk | hk, -, -⟩ | ⟨-, -, he, -⟩ | ⟨-, hk, -⟩ | ⟨-, hk, -⟩)
            · cases hk
            · cases hk
            · simp [callback_spec, hfun, hf, hres, construct, Life.live, he]
            all_goals cases hk
        | object =>
          have hheld : s.holder = false ↔ Act.dropHolder ∈ l := by
            rw [← not_iff_not, Bool.not_eq_false, hi.holder]
            simp
          refine ⟨fun e => ?_, ?_⟩
          · simp [callback_spec, hf, hfun, hres, construct, Life.live, hheld] at e
            exact .gone rfl rfl e.1 hr' (before_drop.mpr e.2)
          · rintro (⟨hk | hk, -, -⟩ | ⟨-, hk, -⟩ | ⟨-, -, hb⟩ | ⟨-, -, he, -, hd⟩)
            · cases hk
            · cases hk
            · cases hk
            · exact absurd hb hlate
            · simp [callback_spec, hfun, hf, hres, construct, Life.live, he, hheld,
                before_drop.mp hd]
      all_goals simp [callback_spec]

theorem Inv.step {a : Act} (hi : Inv k callback h l s) (hs : step k s a = some s')
    (hone : (l ++ [a]).count .run ≤ 1) : Inv k callback h (l ++ [a]) s' := by
  cases a with
  | copy =>
    obtain ⟨hu, he⟩ := Option.ite_none_right_eq_some.mp hs
    cases he
    exact hi.count (Nat.succ_pos _) hu (Or.inl rfl)
  | drop =>
    obtain ⟨hu, he⟩ := Option.ite_none_right_eq_some.mp hs
    cases he
    by_cases hlast : s.use_count - 1 = 0
    · dsimp only
      rw [if_pos hlast, hlast]
      exact hi.destroy hu
    · dsimp only
      rw [if_neg hlast]
      exact hi.count (Nat.pos_of_ne_zero hlast) hu (Or.inr rfl)
  | run =>
    obtain ⟨hu, he⟩ := Option.ite_none_right_eq_some.mp hs
    cases he
    apply hi.run hu
    intro hr
    have hpos := List.count_pos_iff.mpr hr
    rw [List.count_append, List.count_singleton_self] at hone
    omega
  | dropHolder =>
    obtain ⟨-, he⟩ := Option.ite_none_right_eq_some.mp hs
    cases he
    exact hi.dropHolder

theorem Inv.exec (hs : Runs.exec (AsyncResult.step k) (construct k callback h) l = some s)
    (hone : l.count .run ≤ 1) : Inv k callback h l s := by
  refine Runs.exec_keep (P := fun l s => l.count .run ≤ 1 → Inv k callback h l s) ?_ ?_ hs hone
  · intro l t a t' ih ht h1
    apply Inv.step (ih ?_) ht h1
    rw [List.count_append] at h1
    omega
  · intro _
    exact Inv.init

theorem Inv.good_iff (hi : Inv k callback h l s) (hgone : s.use_count = 0) :
    Good callback (decide (.run ∈ l)) s ↔ ¬ Wrong k callback h l := by
  obtain ⟨hcalls, hfault⟩ := hi.down hgone
  rw [← hfault, Bool.not_eq_true]
  exact ⟨fun hg => hg.2, fun hf => ⟨hcalls, hf⟩⟩

/-- **The callback comes once, with the right flag and nothing wrong on the way, unless the post is
one of `Wrong`**: whatever copies come and go, when the last one is gone. -/
theorem callback_once {k : Special} {callback : Bool} {h : Holder} {l : List Act} {s : Life}
    (hs : Runs.exec (step k) (construct k callback h) l = some s) (hone : l.count .run ≤ 1)
    (hgone : s.use_count = 0) :
    Good callback (decide (.run ∈ l)) s ↔ ¬ Wrong k callback h l :=
  (Inv.exec hs hone).good_iff hgone

/-- a post whose function runs: the caller's copy, the one in the message and the one in the list -/
theorem callback_once_run :
    let l := [Act.copy, .copy, .drop, .run, .drop, .drop]
    let s := Runs.exec (step .value) (construct .value true .none) l
    s.any (fun s => s.calls = [(some .returned, true)] && s.use_count = 0) = true ∧
      ∀ t, s = some t → (Good true (decide (.run ∈ l)) t ↔ ¬ Wrong .value true .none l) := by
  refine ⟨by decide, fun t ht => callback_once ht (by decide) ?_⟩
  cases ht
  rfl

/-- an `AsyncResult<R&>` cancelled before it runs hands out a null reference -/
theorem callback_null : ¬ ∀ (k : Special) (callback : Bool) (h : Holder) (l : List Act) (s : Life),
    Runs.exec (step k) (construct k callback h) l = some s → l.count .run ≤ 1 →
    s.use_count = 0 → Good callback (decide (.run ∈ l)) s := by
  intro hall
  have hgood := hall .ref true .none [.copy, .drop, .drop] _ rfl (by decide) rfl
  exact absurd hgood.2 (by decide)

end AsyncResult
end MessageQueue
