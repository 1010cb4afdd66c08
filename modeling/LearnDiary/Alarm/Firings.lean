import LearnDiary.Alarm.Posts
import Mathlib.Algebra.BigOperators.Group.List.Basic
import Mathlib.Algebra.Order.Ring.Nat

/-!
# From the firing to the run of the target

A firing goes on as a run message, or as a thread that has not come to `target->run()` yet.  `total`
counts these and the runs; only a firing raises it, and only a `Cancel` lowers it.  `Thread::start`
does nothing while `isended` is false, and `OnAlarm` does not look at what it comes to.

* `step_effect`   what a step does to `total`;
* `settle`        what waits comes to an end without a `Cancel`;
* `run_iff`       which firings are followed by one run of the target.
-/

namespace Alarm
open State Runs

def Action.isCancel : Action → Bool
  | .cancel _ => true
  | _ => false

/-- what the calls of `OnAlarm` come to in this step -/
def Action.calls : Action → AlarmCalls
  | .broadcast _ o => o
  | .dispatch _ o => o
  | _ => {}

/-- how often the target has been run for the firing `n` -/
def runs (n : Int) (log : List Event) : Nat := log.count (.ran n)

/-- the runs, and those on their way -/
def tally (n : Int) (log : List Event) (async taken : List Async) (runthread_ : RunThread) : Nat :=
  runs n log + async.count (.run n) + taken.count (.run n) +
    if runthread_ = .created n then 1 else 0

def total (n : Int) (s : State) : Nat := tally n s.log s.async s.taken s.runthread_

/-- nothing is left to do for the queue of `reg_async_` and for `runthread_` -/
def State.Settled (s : State) : Prop :=
  s.async = [] ∧ s.taken = [] ∧ s.executing = [] ∧ s.runthread_ = .ended

/-- however it goes on without a `Cancel`, the target is not run twice for `n`, and once when all is
settled -/
def Answered (su : Setup) (n : Int) (s : State) : Prop :=
  ∀ u, Run (step su) (fun _ a => a.isCancel = false) s u →
    runs n u.log ≤ 1 ∧ (u.Settled → runs n u.log = 1)

/-- `Thread::start` makes a thread -/
def State.threadStarts (o : AlarmCalls) (s : State) : Prop :=
  s.runthread_ = .ended ∧ o.created = true

instance (o : AlarmCalls) (s : State) : Decidable (s.threadStarts o) :=
  inferInstanceAs (Decidable (_ ∧ _))

def State.passes (su : Setup) (o : AlarmCalls) (s : State) : Prop :=
  su.inthread_ = true → s.threadStarts o

instance (su : Setup) (o : AlarmCalls) (s : State) : Decidable (s.passes su o) :=
  inferInstanceAs (Decidable (_ → _))

section
variable {su : Setup} {s s' : State} {n : Int}

/-! ## what a step does to the total -/

/-- nothing fires, and nothing is lost -/
structure Quiet (s s' : State) : Prop where
  total : ∀ n, total n s' = total n s
  fired : ∀ n, .fired n ∈ s'.log ↔ .fired n ∈ s.log

structure Fires (su : Setup) (o : AlarmCalls) (s s' : State) : Prop where
  seq : s.seq_ ≠ INVAILD_SEQ
  fired : ∀ n, .fired n ∈ s'.log ↔ n = s.seq_ ∨ .fired n ∈ s.log
  others : ∀ n, n ≠ s.seq_ → total n s' = total n s
  passed : s.passes su o → total s.seq_ s' = total s.seq_ s + 1
  lost : ¬ s.passes su o → total s.seq_ s' = total s.seq_ s

theorem Quiet.of_same (hl : ∀ n, runs n s'.log = runs n s.log)
    (hf : ∀ n, .fired n ∈ s'.log ↔ .fired n ∈ s.log) (ha : s'.async = s.async)
    (ht : s'.taken = s.taken) (hr : s'.runthread_ = s.runthread_) : Quiet s s' where
  total n := by
    unfold Alarm.total tally
    rw [hl n, ha, ht, hr]
  fired := hf

theorem fired_cons {e : Event} {log : List Event} (he : e ≠ .fired n) :
    .fired n ∈ e :: log ↔ .fired n ∈ log := by
  rw [List.mem_cons]
  exact or_iff_right he.symm

theorem runs_cons {e : Event} {log : List Event} (he : e ≠ .ran n) :
    runs n (e :: log) = runs n log := List.count_cons_of_ne he

theorem runs_ran (m : Int) (log : List Event) :
    runs n (.ran m :: log) = runs n log + if m = n then 1 else 0 := by
  unfold runs
  simp only [List.count_cons, beq_iff_eq, Event.ran.injEq]

theorem start_quiet (_after : Int32) (o : StartCalls) : Quiet s (s.start su _after o).2 := by
  unfold State.start
  split
  · exact Quiet.of_same (fun _ => rfl) (fun _ => Iff.rfl) rfl rfl rfl
  · dsimp only
    split
    · exact Quiet.of_same (fun _ => rfl) (fun _ => Iff.rfl) rfl rfl rfl
    · split
      · dsimp only
        split
        · exact Quiet.of_same (fun _ => rfl) (fun _ => Iff.rfl) rfl rfl rfl
        · exact Quiet.of_same (fun _ => rfl) (fun _ => Iff.rfl) rfl rfl rfl
      · exact Quiet.of_same (fun _ => runs_cons nofun) (fun _ => fired_cons nofun) rfl rfl rfl

theorem others_quiet {a : Action} (hs : others su s a = some s') : Quiet s s' := by
  unfold others at hs
  split at hs
  · cases hs
    split
    · exact Quiet.of_same (fun _ => rfl) (fun _ => Iff.rfl) rfl rfl rfl
    · exact Quiet.of_same (fun _ => rfl) (fun _ => Iff.rfl) rfl rfl rfl
  · split at hs
    · cases hs
      exact Quiet.of_same (fun _ => rfl) (fun _ => Iff.rfl) rfl rfl rfl
    · cases hs
  · split at hs
    · cases hs
      exact Quiet.of_same (fun _ => rfl) (fun _ => Iff.rfl) rfl rfl rfl
    · cases hs
  · cases hs

theorem routine_quiet {a : Action} (hs : routine s a = some s') : Quiet s s' := by
  unfold routine at hs
  split at hs
  · split at hs
    next seq hthread =>
      cases hs
      refine ⟨fun n => ?_, fun n => fired_cons nofun⟩
      -- the thread that was created is in the target
      show tally n (.ran seq :: s.log) s.async s.taken (.running seq) = total n s
      unfold total tally
      rw [runs_ran, hthread]
      simp only [RunThread.created.injEq, reduceCtorEq, if_false]
      omega
    next => cases hs
  · split at hs
    next seq hthread =>
      cases hs
      refine ⟨fun n => ?_, fun n => Iff.rfl⟩
      unfold total tally
      rw [hthread]
      simp only [reduceCtorEq]
    next => cases hs
  · split at hs
    next hthread =>
      cases hs
      refine ⟨fun n => ?_, fun n => Iff.rfl⟩
      unfold total tally
      rw [hthread]
      simp only [reduceCtorEq]
    next => cases hs
  · cases hs

theorem take_quiet {m : Async} (hm : m ∈ s.async) :
    Quiet s (({ s with async := s.async.erase m, taken := m :: s.taken }).emit (.taken m)) where
  total n := by
    have hpos := List.count_pos_iff.mpr hm
    have hne : Event.taken m ≠ .ran n := nofun
    show tally n (.taken m :: s.log) (s.async.erase m) (m :: s.taken) s.runthread_ = total n s
    unfold total tally
    rw [runs_cons hne]
    by_cases hn : m = .run n
    · subst hn
      rw [List.count_erase_self, List.count_cons_self]
      omega
    · rw [List.count_erase_of_ne (Ne.symm hn), List.count_cons_of_ne hn]
  fired n := fired_cons nofun

theorem run_quiet {m : Int} (hm : .run m ∈ s.taken) :
    Quiet s (({ s with taken := s.taken.erase (.run m) }).run m) where
  total n := by
    have hpos := List.count_pos_iff.mpr hm
    show tally n (.ran m :: s.log) s.async (s.taken.erase (.run m)) s.runthread_ = total n s
    unfold total tally
    rw [runs_ran]
    by_cases hn : m = n
    · subst hn
      rw [List.count_erase_self, if_pos rfl]
      omega
    · have hne : Async.run n ≠ .run m := fun h => hn (Async.run.inj h).symm
      rw [List.count_erase_of_ne hne, if_neg hn]
      rfl
  fired n := fired_cons nofun

theorem hop_quiet (m : Message) : Quiet s (s.asyncInvoke (.onAlarm m)) where
  total n := by
    have hne : Async.onAlarm m ≠ .run n := nofun
    show tally n s.log (s.async ++ [.onAlarm m]) s.taken s.runthread_ = total n s
    unfold total tally
    rw [List.count_append, List.count_singleton, if_neg (fun h => hne (eq_of_beq h))]
    rfl
  fired n := Iff.rfl

theorem fire_fires (o : AlarmCalls) (hseq : s.seq_ ≠ INVAILD_SEQ) : Fires su o s (s.fire su o) := by
  have hfired : ∀ n, .fired n ∈ .fired s.seq_ :: s.log ↔ n = s.seq_ ∨ .fired n ∈ s.log := by
    intro n
    rw [List.mem_cons, Event.fired.injEq]
  have hruns : ∀ n, runs n (.fired s.seq_ :: s.log) = runs n s.log := fun n => runs_cons nofun
  -- without a message and without a thread
  have hnone : ∀ n, tally n (.fired s.seq_ :: s.log) s.async s.taken s.runthread_ = total n s := by
    intro n
    unfold total tally
    rw [hruns]
  unfold State.fire
  dsimp only
  split
  next hin =>
    unfold State.threadStart
    split
    next hended =>
      have hended : s.runthread_ = .ended := hended
      split
      next hcreated =>
        have htotal : ∀ n, tally n (.fired s.seq_ :: s.log) s.async s.taken (.created s.seq_) =
            total n s + if s.seq_ = n then 1 else 0 := by
          intro n
          rw [← hnone n, hended]
          unfold tally
          simp only [RunThread.created.injEq, reduceCtorEq, if_false]
          omega
        refine ⟨hseq, hfired, fun n hn => ?_, fun _ => ?_, fun h => absurd ?_ h⟩
        · exact (htotal n).trans (by rw [if_neg (Ne.symm hn), Nat.add_zero])
        · exact (htotal s.seq_).trans (by rw [if_pos rfl])
        · exact fun _ => ⟨hended, hcreated⟩
      next hcreated =>
        exact ⟨hseq, hfired, fun n _ => hnone n, fun h => absurd (h hin).2 hcreated,
          fun _ => hnone s.seq_⟩
    next hended =>
      exact ⟨hseq, hfired, fun n _ => hnone n, fun h => absurd (h hin).1 hended,
        fun _ => hnone s.seq_⟩
  next hin =>
    have htotal : ∀ n, tally n (.posted s.seq_ :: .fired s.seq_ :: s.log)
        (s.async ++ [.run s.seq_]) s.taken s.runthread_ =
          total n s + if s.seq_ = n then 1 else 0 := by
      intro n
      have hne : Event.posted s.seq_ ≠ .ran n := nofun
      rw [← hnone n]
      unfold tally
      rw [runs_cons hne, List.count_append, List.count_singleton]
      simp only [beq_iff_eq, Async.run.injEq]
      omega
    refine ⟨hseq, fun n => ?_, fun n hn => ?_, fun _ => ?_, fun h => absurd ?_ h⟩
    · have hne : Event.posted s.seq_ ≠ .fired n := nofun
      exact (fired_cons hne).trans (hfired n)
    · exact (htotal n).trans (by rw [if_neg (Ne.symm hn), Nat.add_zero])
    · exact (htotal s.seq_).trans (by rw [if_pos rfl])
    · exact fun h => absurd h hin

theorem Quiet.trans {t : State} (h : Quiet s t) (h' : Quiet t s') : Quiet s s' where
  total n := (h'.total n).trans (h.total n)
  fired n := (h'.fired n).trans (h.fired n)

theorem Fires.after {t : State} {o : AlarmCalls} (h : Quiet s t) (hseq : t.seq_ = s.seq_)
    (hthread : t.runthread_ = s.runthread_) (h' : Fires su o t s') : Fires su o s s' := by
  have hpass : t.passes su o ↔ s.passes su o := by
    unfold State.passes State.threadStarts
    rw [hthread]
  obtain ⟨h1, h2, h3, h4, h5⟩ := h'
  rw [hseq] at h1 h2 h3 h4 h5
  rw [hpass, h.total] at h4 h5
  exact ⟨h1, fun n => (h2 n).trans (or_congr_right (h.fired n)),
    fun n hn => (h3 n hn).trans (h.total n), h4, h5⟩

theorem onAlarm_effect {m : Message} (hm : Numbered m) (cur : MessageQueue.MessageQueue_t)
    (o : AlarmCalls) :
    Quiet s (s.onAlarm su cur m o) ∨ Fires su o s (s.onAlarm su cur m o) := by
  rcases onAlarm_cases su cur m o s with he | ⟨-, he⟩ | ⟨-, htitle, hseq, he⟩
  · rw [he]
    exact Or.inl ⟨fun _ => rfl, fun _ => Iff.rfl⟩
  · rw [he]
    exact Or.inl (hop_quiet m)
  · rw [he]
    refine Or.inr (fire_fires o ?_)
    rw [hseq]
    exact ne_of_gt (hm htitle)

theorem cancel_total (o : CancelCalls) (n : Int) : total n (s.cancel su o).2 ≤ total n s := by
  have hlow : tally n (.cancelled :: s.log) [] s.taken s.runthread_ ≤ total n s := by
    have hne : Event.cancelled ≠ .ran n := nofun
    unfold total tally
    rw [runs_cons hne, List.count_nil]
    omega
  unfold State.cancel
  dsimp only
  split
  · exact hlow
  · exact hlow

theorem cancel_fired (o : CancelCalls) (n : Int) :
    .fired n ∈ (s.cancel su o).2.log ↔ .fired n ∈ s.log := by
  have hne : Event.cancelled ≠ .fired n := nofun
  unfold State.cancel
  dsimp only
  split
  · exact fired_cons hne
  · exact fired_cons hne

/-- **What a step does to the totals.** -/
theorem step_effect {a : Action} (h : Inv s) (hs : step su s a = some s') :
    (a.isCancel = true ∧ (∀ n, total n s' ≤ total n s) ∧
      ∀ n, .fired n ∈ s'.log ↔ .fired n ∈ s.log) ∨
    (a.isCancel = false ∧ (Quiet s s' ∨ Fires su a.calls s s')) := by
  cases a with
  | start _after o =>
    cases hs
    exact Or.inr ⟨rfl, Or.inl (start_quiet _after o)⟩
  | cancel o =>
    cases hs
    exact Or.inl ⟨rfl, cancel_total o, cancel_fired o⟩
  | otherStart posted =>
    rw [step] at hs
    exact Or.inr ⟨rfl, Or.inl (others_quiet hs)⟩
  | jni id =>
    rw [step] at hs
    exact Or.inr ⟨rfl, Or.inl (others_quiet hs)⟩
  | foreign m =>
    rw [step] at hs
    exact Or.inr ⟨rfl, Or.inl (others_quiet hs)⟩
  | broadcast m o =>
    rw [step] at hs
    obtain ⟨hm, hs⟩ := Option.ite_none_right_eq_some.mp hs
    cases hs
    have hleft : Quiet s { s with broadcasts := s.broadcasts.erase m } :=
      ⟨fun _ => rfl, fun _ => Iff.rfl⟩
    refine Or.inr ⟨rfl, ?_⟩
    rcases onAlarm_effect (h.broadcasts m hm) su.defMessageQueue o with hq | hf
    · exact Or.inl (hleft.trans hq)
    · exact Or.inr (Fires.after hleft rfl rfl hf)
  | take m =>
    rw [step] at hs
    obtain ⟨hm, hs⟩ := Option.ite_none_right_eq_some.mp hs
    cases hs
    exact Or.inr ⟨rfl, Or.inl (take_quiet hm)⟩
  | dispatch m o =>
    rw [step] at hs
    obtain ⟨hm, hs⟩ := Option.ite_none_right_eq_some.mp hs
    cases hs
    refine Or.inr ⟨rfl, ?_⟩
    cases m with
    | run n => exact Or.inl (run_quiet hm)
    | onAlarm m =>
      have hleft : Quiet s { s with taken := s.taken.erase (.onAlarm m) } := by
        refine ⟨fun n => ?_, fun _ => Iff.rfl⟩
        have hne : Async.run n ≠ .onAlarm m := by
          intro he
          cases he
        unfold total tally
        rw [List.count_erase_of_ne hne]
      rcases onAlarm_effect (h.taken m hm) su.reg_async_ o with hq | hf
      · exact Or.inl (hleft.trans hq)
      · exact Or.inr (Fires.after hleft rfl rfl hf)
  | finish seq =>
    rw [step] at hs
    cases (Option.ite_none_right_eq_some.mp hs).2
    exact Or.inr ⟨rfl, Or.inl ⟨fun _ => rfl, fun _ => Iff.rfl⟩⟩
  | init =>
    rw [step] at hs
    exact Or.inr ⟨rfl, Or.inl (routine_quiet hs)⟩
  | targetEnd =>
    rw [step] at hs
    exact Or.inr ⟨rfl, Or.inl (routine_quiet hs)⟩
  | cleanup =>
    rw [step] at hs
    exact Or.inr ⟨rfl, Or.inl (routine_quiet hs)⟩

/-! ## along a run -/

/-- before its firing nothing is on its way for a number -/
theorem total_unfired (h : Reachable su s) (hn : .fired n ∉ s.log) : total n s = 0 := by
  have hkeep : Inv s ∧ (.fired n ∉ s.log → total n s = 0) := by
    refine h.keep (P := fun s => Inv s ∧ (.fired n ∉ s.log → total n s = 0)) ?_
      ⟨inv_init, fun _ => rfl⟩
    rintro s a s' ⟨hi, hz⟩ - hs
    refine ⟨step_inv hi hs, fun hno => ?_⟩
    rcases step_effect hi hs with ⟨-, hle, hf⟩ | ⟨-, hq | hf⟩
    · have := hle n
      have := hz (fun hm => hno ((hf n).mpr hm))
      omega
    · rw [hq.total n]
      exact hz (fun hm => hno ((hq.fired n).mpr hm))
    · have hne : n ≠ s.seq_ := fun he => hno ((hf.fired n).mpr (Or.inl he))
      rw [hf.others n hne]
      exact hz (fun hm => hno ((hf.fired n).mpr (Or.inr hm)))
  exact hkeep.2 hn

/-- behind its firing the total of a number stays, as long as there is no `Cancel` -/
theorem total_fired {u : State} (hi : Inv s) (hn : .fired n ∈ s.log)
    (hr : Run (step su) (fun _ a => a.isCancel = false) s u) : total n u = total n s := by
  have hkeep : Inv u ∧ .fired n ∈ u.log ∧ total n u = total n s := by
    refine hr.keep (P := fun u => Inv u ∧ .fired n ∈ u.log ∧ total n u = total n s) ?_ ⟨hi, hn, rfl⟩
    rintro u a u' ⟨hi, hn, he⟩ hc hs
    refine ⟨step_inv hi hs, ?_⟩
    rcases step_effect hi hs with ⟨hyes, -⟩ | ⟨-, hq | hf⟩
    · rw [hyes] at hc
      cases hc
    · exact ⟨(hq.fired n).mpr hn, (hq.total n).trans he⟩
    · have hne : n ≠ u.seq_ := by
        intro heq
        subst heq
        exact (hi.current hf.seq).2 hn
      exact ⟨(hf.fired n).mpr (Or.inr hn), (hf.others n hne).trans he⟩
  exact hkeep.2.2

/-! ## what waits comes to an end -/

/-- the steps a message in the list may still take -/
def Async.rank : Async → Nat
  | .onAlarm _ => 5
  | .run _ => 3

def RunThread.rank : RunThread → Nat
  | .ended => 0
  | .created _ => 3
  | .running _ => 2
  | .leaving => 1

/-- the message that is called takes one step less than one in the list -/
def rank (s : State) : Nat :=
  (s.async.map (fun m => m.rank + 1)).sum + (s.taken.map Async.rank).sum + s.executing.length +
    s.runthread_.rank

theorem fire_rank (o : AlarmCalls) : rank (s.fire su o) ≤ rank s + 4 := by
  unfold State.fire
  dsimp only
  split
  · unfold State.threadStart
    split
    next hended =>
      split
      · have hended : s.runthread_ = .ended := hended
        unfold rank
        rw [hended]
        show _ + 3 ≤ _ + 0 + 4
        exact Nat.add_le_add_left (by decide) _
      · exact Nat.le_add_right _ _
    next => exact Nat.le_add_right _ _
  · unfold rank
    show ((s.async ++ [Async.run s.seq_]).map _).sum + _ + _ + _ ≤ _
    rw [List.map_append, List.sum_append]
    show (_ + 4) + _ + _ + _ ≤ _
    simp only [State.emit, State.asyncInvoke]
    omega

/-- as long as not all is settled, there is a step that is no `Cancel` and lowers the rank -/
theorem progress (h : ¬ s.Settled) :
    ∃ a s', a.isCancel = false ∧ step su s a = some s' ∧ rank s' < rank s := by
  cases ha : s.async with
  | cons m rest =>
    refine ⟨.take m, _, rfl, if_pos (ha ▸ List.mem_cons_self), ?_⟩
    unfold rank
    simp only [State.emit, ha, List.erase_cons_head, List.map_cons, List.sum_cons]
    omega
  | nil =>
    cases ht : s.taken with
    | cons m rest =>
      refine ⟨.dispatch m {}, _, rfl, if_pos (ht ▸ List.mem_cons_self), ?_⟩
      rw [ht, List.erase_cons_head]
      have hrank : rank { s with taken := rest } + m.rank = rank s := by
        unfold rank
        simp only [ht, List.map_cons, List.sum_cons]
        omega
      cases m with
      | run n =>
        have hrun : rank (({ s with taken := rest }).run n) = rank { s with taken := rest } + 1 := by
          unfold rank
          simp only [State.run, State.emit, List.length_cons]
          omega
        show rank (({ s with taken := rest }).run n) < rank s
        rw [hrun]
        show _ < _
        have : Async.rank (.run n) = 3 := rfl
        omega
      | onAlarm m =>
        have hm : Async.rank (.onAlarm m) = 5 := rfl
        show rank (({ s with taken := rest }).onAlarm su su.reg_async_ m {}) < rank s
        rcases onAlarm_cases su su.reg_async_ m {} { s with taken := rest } with he | ⟨hne, -⟩ |
          ⟨-, -, -, he⟩
        · rw [he]
          omega
        · exact absurd rfl hne
        · rw [he]
          have : rank (State.fire su {} { s with taken := rest }) ≤ rank { s with taken := rest } + 4 :=
            fire_rank {}
          omega
    | nil =>
      cases he : s.executing with
      | cons n rest =>
        refine ⟨.finish n, _, rfl, if_pos (he ▸ List.mem_cons_self), ?_⟩
        unfold rank
        simp only [he, List.erase_cons_head, List.length_cons]
        omega
      | nil =>
        cases hr : s.runthread_ with
        | ended => exact absurd ⟨ha, ht, he, hr⟩ h
        | created n =>
          refine ⟨.init, ({ s with runthread_ := .running n }).emit (.ran n), rfl, ?_, ?_⟩
          · rw [step, routine, hr]
          · unfold rank
            rw [hr]
            exact Nat.lt_succ_self _
        | running n =>
          refine ⟨.targetEnd, { s with runthread_ := .leaving }, rfl, ?_, ?_⟩
          · rw [step, routine, hr]
          · unfold rank
            rw [hr]
            exact Nat.lt_succ_self _
        | leaving =>
          refine ⟨.cleanup, { s with runthread_ := .ended }, rfl, ?_, ?_⟩
          · rw [step, routine, if_pos hr]
          · unfold rank
            rw [hr]
            exact Nat.lt_succ_self _

theorem settle (su : Setup) (s : State) :
    ∃ u, Run (step su) (fun _ a => a.isCancel = false) s u ∧ u.Settled := by
  induction hk : rank s using Nat.strong_induction_on generalizing s with
  | _ k ih =>
    by_cases h : s.Settled
    · exact ⟨s, Relation.ReflTransGen.refl, h⟩
    · obtain ⟨a, s', ha, hs, hlt⟩ : ∃ a s', a.isCancel = false ∧ step su s a = some s' ∧
          rank s' < rank s := progress h
      obtain ⟨u, hr, hu⟩ := ih (rank s') (hk ▸ hlt) s' rfl
      exact ⟨u, hr.head ⟨a, ha, hs⟩, hu⟩

theorem Settled.total (h : s.Settled) (n : Int) : total n s = runs n s.log := by
  obtain ⟨ha, ht, -, hr⟩ := h
  unfold Alarm.total tally
  have hne : RunThread.ended ≠ .created n := nofun
  rw [ha, ht, hr, List.count_nil, if_neg hne]
  rfl

/-- **Which firings are followed by one run of the target**: in every run, those that are passed on.
A firing is lost in the thread mode while `runthread_` has not ended, or without a new thread. -/
theorem run_iff {a : Action} (h : Reachable su s) (hs : step su s a = some s')
    (hno : .fired n ∉ s.log) (hn : .fired n ∈ s'.log) :
    Answered su n s' ↔ s.passes su a.calls := by
  have hi' : Inv s' := step_inv h.inv hs
  have htotal : total n s' = if s.passes su a.calls then 1 else 0 := by
    rcases step_effect h.inv hs with ⟨-, -, hf⟩ | ⟨-, hq | hf⟩
    · exact absurd ((hf n).mp hn) hno
    · exact absurd ((hq.fired n).mp hn) hno
    · have hseq : n = s.seq_ := ((hf.fired n).mp hn).resolve_right hno
      have hzero : total s.seq_ s = 0 := total_unfired h (hseq ▸ hno)
      subst hseq
      split
      next hp => rw [hf.passed hp, hzero]
      next hp => rw [hf.lost hp, hzero]
  constructor
  · intro hans
    by_contra hp
    rw [if_neg hp] at htotal
    obtain ⟨u, hr, hu⟩ := settle su s'
    have hone := (hans u hr).2 hu
    have hzero := total_fired hi' hn hr
    rw [Settled.total hu] at hzero
    omega
  · intro hp u hr
    rw [if_pos hp] at htotal
    have hone := total_fired hi' hn hr
    constructor
    · have hle : runs n u.log ≤ total n u := by
        unfold total tally
        omega
      omega
    · intro hu
      rw [← Settled.total hu, hone, htotal]

/-- the alarm is restarted in its own run, and fires again before this run has ended -/
def overlapping : List Action :=
  let first : Message := ⟨KALARM_MESSAGETITLE, 1⟩
  [.start 10 {}, .broadcast first {}, .init, .start 10 {}]

/-- a firing in the thread mode with the thread idle, and the run it leads to -/
theorem run_iff_idle : ∃ s s', Reachable ⟨1, 1, true, false⟩ s ∧
    step ⟨1, 1, true, false⟩ s (.broadcast ⟨KALARM_MESSAGETITLE, 1⟩ {}) = some s' ∧
    Answered ⟨1, 1, true, false⟩ 1 s' := by
  have hrun : Run (step ⟨1, 1, true, false⟩) (fun _ _ => True) init
      (init.start ⟨1, 1, true, false⟩ 10 {}).2 :=
    Run.one (a := .start 10 {}) trivial rfl
  refine ⟨_, _, hrun, rfl, ?_⟩
  refine (run_iff (a := .broadcast ⟨KALARM_MESSAGETITLE, 1⟩ {}) hrun rfl ?_ ?_).mpr ?_
  · decide
  · decide
  · decide

instance (s : State) : Decidable s.Settled := inferInstanceAs (Decidable (_ ∧ _))

/-- the second firing of `overlapping`: the first run ends, and nothing is left to do -/
theorem firing_lost : ∃ s s', Reachable ⟨1, 1, true, false⟩ s ∧
    step ⟨1, 1, true, false⟩ s (.broadcast ⟨KALARM_MESSAGETITLE, 2⟩ {}) = some s' ∧
    .fired 2 ∉ s.log ∧ .fired 2 ∈ s'.log ∧ s'.status_ = .kOnAlarm ∧
    ¬ Answered ⟨1, 1, true, false⟩ 2 s' := by
  have hrun : (exec (step ⟨1, 1, true, false⟩) init overlapping).any (fun s =>
      (step ⟨1, 1, true, false⟩ s (.broadcast ⟨KALARM_MESSAGETITLE, 2⟩ {})).any (fun s' =>
        decide (.fired 2 ∉ s.log ∧ .fired 2 ∈ s'.log ∧ s'.status_ = .kOnAlarm) &&
        (exec (step ⟨1, 1, true, false⟩) s' [.targetEnd, .cleanup]).any (fun u =>
          decide (u.Settled ∧ runs 2 u.log = 0)))) = true := by
    decide +kernel
  obtain ⟨s, hs, htest⟩ := Run.of_test hrun
  obtain ⟨s', hs', htest⟩ := (Option.any_eq_true _ _).mp htest
  rw [Bool.and_eq_true] at htest
  obtain ⟨hfired, htest⟩ := htest
  obtain ⟨u, hu, htest⟩ := (Option.any_eq_true _ _).mp htest
  obtain ⟨h1, h2, h3⟩ := of_decide_eq_true hfired
  obtain ⟨hsettled, hzero⟩ := of_decide_eq_true htest
  have hcont : Run (step ⟨1, 1, true, false⟩) (fun _ a => a.isCancel = false) s' u := by
    refine Run.of_exec_all hu ?_
    intro a ha t
    rcases List.mem_pair.mp ha with rfl | rfl
    · rfl
    · rfl
  refine ⟨s, s', hs, hs', h1, h2, h3, fun hans => ?_⟩
  have hone := (hans u hcont).2 hsettled
  rw [hzero] at hone
  cases hone

end

end Alarm
