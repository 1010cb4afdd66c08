import LearnDiary.Alarm.State
import LearnDiary.Lib.History

/-!
# The run messages of an `Alarm`

The number of a `Start` goes with the broadcast, over the hop to the queue of `reg_async_`, to
the comparison with `seq_`; from there on the run message lies in a list that `Cancel` empties.

* `Right`          what every event says of the history it comes in with;
* `Inv`            the numbers in use, and where the run messages that wait come from;
* `step_inv`       every step keeps that;
* `run_messages`   the run messages of a run.
-/

namespace Alarm
open State History

/-- the number of the last `Start`, if no `Cancel` has followed -/
def inForce : List Event → Option Int
  | [] => none
  | .started n :: _ => some n
  | .cancelled :: _ => none
  | _ :: log => inForce log

/-- the events since the last `Cancel` -/
def sinceCancel : List Event → List Event
  | [] => []
  | .cancelled :: _ => []
  | e :: log => e :: sinceCancel log

theorem sinceCancel_cons {e : Event} (he : e ≠ .cancelled) (log : List Event) :
    sinceCancel (e :: log) = e :: sinceCancel log := by
  cases e with
  | cancelled => exact absurd rfl he
  | started n | fired n | posted n | taken m | ran n => rfl

theorem sinceCancel_mem {e : Event} {log : List Event} (h : e ∈ sinceCancel log) : e ∈ log := by
  induction log with
  | nil => cases h
  | cons x log ih =>
    by_cases hx : x = .cancelled
    · subst hx
      cases h
    · rw [sinceCancel_cons hx] at h
      rcases List.mem_cons.mp h with rfl | h
      · exact List.mem_cons_self
      · exact List.mem_cons_of_mem _ (ih h)

theorem sinceCancel_append {e : Event} {l₁ l₂ : List Event}
    (h : e ∈ sinceCancel (l₁ ++ .cancelled :: l₂)) : e ∈ l₁ := by
  induction l₁ with
  | nil =>
    rw [List.nil_append] at h
    cases h
  | cons x l ih =>
    by_cases hx : x = .cancelled
    · subst hx
      cases h
    · rw [List.cons_append, sinceCancel_cons hx] at h
      rcases List.mem_cons.mp h with rfl | h
      · exact List.mem_cons_self
      · exact List.mem_cons_of_mem _ (ih h)

theorem inForce_started {n : Int} {log : List Event} (h : inForce log = some n) :
    .started n ∈ sinceCancel log := by
  induction log with
  | nil => cases h
  | cons e log ih =>
    cases e with
    | started m =>
      obtain rfl : m = n := Option.some.inj h
      exact List.mem_cons_self
    | cancelled => cases h
    | fired m | posted m | taken m | ran m => exact List.mem_cons_of_mem _ (ih h)

/-- what an event says of the history before it -/
def Right : Event → List Event → Prop
  | .started n, log => ∀ m, .started m ∈ log → m < n
  | .fired n, log => inForce log = some n ∧ .fired n ∉ log
  | .posted n, log => ∃ before, log = .fired n :: before
  | .taken (.run n), log => .started n ∈ sinceCancel log
  | _, _ => True

section
variable {n : Int} {log : List Event}

theorem started_once (h : Each Right log) : log.count (.started n) ≤ 1 := by
  refine h.count_le (fun l _ hr hmem => ?_)
  exact lt_irrefl n (hr n hmem)

theorem fired_started (h : Each Right log) (hf : .fired n ∈ log) : .started n ∈ log := by
  obtain ⟨l₁, l₂, hl⟩ := List.append_of_mem hf
  have hr : Right (.fired n) l₂ := h.at hl
  rw [hl]
  exact List.mem_append_right _ (List.mem_cons_of_mem _ (sinceCancel_mem (inForce_started hr.1)))

theorem posted_fired (h : Each Right log) (hp : .posted n ∈ log) : .fired n ∈ log := by
  obtain ⟨l₁, l₂, hl⟩ := List.append_of_mem hp
  obtain ⟨before, hb⟩ : Right (.posted n) l₂ := h.at hl
  rw [hl, hb]
  exact List.mem_append_right _ (List.mem_cons_of_mem _ List.mem_cons_self)

theorem posted_once (h : Each Right log) : log.count (.posted n) ≤ 1 := by
  refine h.count_le (fun l hl hr hmem => ?_)
  obtain ⟨before, rfl⟩ := hr
  -- an earlier message would have had a firing of its own
  rcases List.mem_cons.mp hmem with hmem | hmem
  · cases hmem
  · exact hl.1.2 (posted_fired hl.2 hmem)

end

/-- a broadcast of an alarm carries a number -/
def Numbered (m : Message) : Prop := m.title = KALARM_MESSAGETITLE → 0 < m.body1

structure Inv (s : State) : Prop where
  sg_seq_pos : 0 < s.sg_seq
  each : Each Right s.log
  below : ∀ n, .started n ∈ s.log → n < s.sg_seq
  current : s.seq_ ≠ INVAILD_SEQ → inForce s.log = some s.seq_ ∧ .fired s.seq_ ∉ s.log
  waiting : s.status_ = .kStart ↔ s.seq_ ≠ INVAILD_SEQ
  pending : ∀ n, .run n ∈ s.async → .started n ∈ sinceCancel s.log
  broadcasts : ∀ m ∈ s.broadcasts, Numbered m
  async : ∀ m, .onAlarm m ∈ s.async → Numbered m
  taken : ∀ m, .onAlarm m ∈ s.taken → Numbered m

theorem inv_init : Inv init where
  sg_seq_pos := Int.one_pos
  each := trivial
  below := by
    intro n h
    cases h
  current h := absurd rfl h
  waiting := ⟨nofun, fun h => absurd rfl h⟩
  pending := by
    intro n h
    cases h
  broadcasts := by
    intro m h
    cases h
  async := by
    intro m h
    cases h
  taken := by
    intro m h
    cases h

section
variable {su : Setup} {s s' : State}

/-! ## the pieces of a step -/

theorem makeSeq_eq (h : 0 < s.sg_seq) : s.makeSeq = (s.sg_seq, { s with sg_seq := s.sg_seq + 1 }) := by
  unfold makeSeq
  rw [if_neg]
  intro h0
  rw [h0] at h
  exact absurd h (by decide)

theorem Inv.drawn (h : Inv s) : Inv { s with sg_seq := s.sg_seq + 1 } where
  sg_seq_pos := by
    have := h.sg_seq_pos
    show 0 < s.sg_seq + 1
    omega
  each := h.each
  below n hn := by
    have := h.below n hn
    show n < s.sg_seq + 1
    omega
  current := h.current
  waiting := h.waiting
  pending := h.pending
  broadcasts := h.broadcasts
  async := h.async
  taken := h.taken

theorem Inv.broadcastMessage {m : Message} (h : Inv s) (hm : Numbered m) :
    Inv (s.broadcastMessage m) where
  sg_seq_pos := h.sg_seq_pos
  each := h.each
  below := h.below
  current := h.current
  waiting := h.waiting
  pending := h.pending
  broadcasts := by
    intro m' hm'
    rcases List.mem_append.mp hm' with hm' | hm'
    · exact h.broadcasts m' hm'
    · rw [List.mem_singleton.mp hm']
      exact hm
  async := h.async
  taken := h.taken

theorem Inv.emit {e : Event} (h : Inv s) (he : Right e s.log) (hs : ∀ n, e ≠ .started n)
    (hc : e ≠ .cancelled) (hf : ∀ n, e ≠ .fired n) : Inv (s.emit e) where
  sg_seq_pos := h.sg_seq_pos
  each := ⟨he, h.each⟩
  below n hn := by
    rcases List.mem_cons.mp hn with hn | hn
    · exact absurd hn.symm (hs n)
    · exact h.below n hn
  current hne := by
    obtain ⟨h1, h2⟩ := h.current hne
    constructor
    · cases e with
      | started n => exact absurd rfl (hs n)
      | cancelled => exact absurd rfl hc
      | fired n => exact h1
      | posted n => exact h1
      | taken m => exact h1
      | ran n => exact h1
    · intro hmem
      rcases List.mem_cons.mp hmem with hmem | hmem
      · exact hf _ hmem.symm
      · exact h2 hmem
  waiting := h.waiting
  pending n hn := by
    show _ ∈ sinceCancel (e :: s.log)
    rw [sinceCancel_cons hc]
    exact List.mem_cons_of_mem _ (h.pending n hn)
  broadcasts := h.broadcasts
  async := h.async
  taken := h.taken

/-! ## the functions of the class -/

theorem Inv.start (h : Inv s) (_after : Int32) (o : StartCalls) : Inv (s.start su _after o).2 := by
  unfold State.start
  by_cases hseq : s.seq_ = INVAILD_SEQ
  · have hnum : Numbered ⟨KALARM_MESSAGETITLE, s.sg_seq⟩ := fun _ => h.sg_seq_pos
    rw [if_neg (not_not_intro hseq), makeSeq_eq h.sg_seq_pos]
    dsimp only
    split
    · exact h.drawn
    · split
      · dsimp only
        split
        · exact h.drawn.broadcastMessage hnum
        · exact h.drawn
      · have hb := h.drawn.broadcastMessage hnum
        have hnew : ∀ n, .started n ∈ s.log → n < s.sg_seq := h.below
        constructor
        · exact hb.sg_seq_pos
        · exact ⟨hnew, h.each⟩
        · intro n hn
          rcases List.mem_cons.mp hn with hn | hn
          · cases hn
            exact Int.lt_succ s.sg_seq
          · exact hb.below n hn
        · intro _
          refine ⟨rfl, fun hmem => ?_⟩
          rcases List.mem_cons.mp hmem with hmem | hmem
          · cases hmem
          · exact lt_irrefl _ (hnew _ (fired_started h.each hmem))
        · exact ⟨fun _ => ne_of_gt h.sg_seq_pos, fun _ => rfl⟩
        · intro n hn
          exact List.mem_cons_of_mem _ (h.pending n hn)
        · exact hb.broadcasts
        · exact h.async
        · exact h.taken
  · rw [if_pos hseq]
    exact h

theorem Inv.cancel (h : Inv s) (o : CancelCalls) : Inv (s.cancel su o).2 := by
  have hlog : Each Right (.cancelled :: s.log) := ⟨trivial, h.each⟩
  have hbelow : ∀ n, .started n ∈ .cancelled :: s.log → n < s.sg_seq := by
    intro n hn
    rcases List.mem_cons.mp hn with hn | hn
    · cases hn
    · exact h.below n hn
  unfold State.cancel
  dsimp only
  split
  next hseq =>
    constructor
    · exact h.sg_seq_pos
    · exact hlog
    · exact hbelow
    · exact fun hne => absurd hseq hne
    · exact h.waiting
    · exact fun n hn => nomatch hn
    · exact h.broadcasts
    · exact fun m hm => nomatch hm
    · exact h.taken
  next hseq =>
    constructor
    · exact h.sg_seq_pos
    · exact hlog
    · exact hbelow
    · exact fun hne => absurd rfl hne
    · exact ⟨nofun, fun hne => absurd rfl hne⟩
    · exact fun n hn => nomatch hn
    · exact h.broadcasts
    · exact fun m hm => nomatch hm
    · exact h.taken

theorem Inv.threadStart (h : Inv s) (seq : Int) (created : Bool) :
    Inv (s.threadStart seq created) := by
  unfold State.threadStart
  split
  · split
    · exact { h with }
    · exact h
  · exact h

theorem Inv.asyncInvoke {m : Async} (h : Inv s)
    (hrun : ∀ n, m = .run n → .started n ∈ sinceCancel s.log)
    (hnum : ∀ m', m = .onAlarm m' → Numbered m') : Inv (s.asyncInvoke m) where
  sg_seq_pos := h.sg_seq_pos
  each := h.each
  below := h.below
  current := h.current
  waiting := h.waiting
  pending := by
    intro n hn
    rcases List.mem_append.mp hn with hn | hn
    · exact h.pending n hn
    · exact hrun n (List.mem_singleton.mp hn).symm
  broadcasts := h.broadcasts
  async := by
    intro m' hm'
    rcases List.mem_append.mp hm' with hm' | hm'
    · exact h.async m' hm'
    · exact hnum m' (List.mem_singleton.mp hm').symm
  taken := h.taken

theorem Inv.fire (h : Inv s) (hseq : s.seq_ ≠ INVAILD_SEQ) (o : AlarmCalls) :
    Inv (s.fire su o) := by
  obtain ⟨hforce, hnew⟩ := h.current hseq
  have hfired : Inv (({ s with
      status_ := .kOnAlarm, seq_ := INVAILD_SEQ, endtime_ := o.curtime }).emit (.fired s.seq_)) := by
    constructor
    · exact h.sg_seq_pos
    · exact ⟨⟨hforce, hnew⟩, h.each⟩
    · intro n hn
      rcases List.mem_cons.mp hn with hn | hn
      · cases hn
      · exact h.below n hn
    · exact fun hne => absurd rfl hne
    · exact ⟨nofun, fun hne => absurd rfl hne⟩
    · exact fun n hn => List.mem_cons_of_mem _ (h.pending n hn)
    · exact h.broadcasts
    · exact h.async
    · exact h.taken
  unfold State.fire
  dsimp only
  split
  · exact hfired.threadStart _ _
  · have hin : .started s.seq_ ∈ sinceCancel (.fired s.seq_ :: s.log) :=
      List.mem_cons_of_mem _ (inForce_started hforce)
    have hrun : ∀ n, Async.run s.seq_ = .run n → .started n ∈ sinceCancel (.fired s.seq_ :: s.log) := by
      intro n hn
      cases hn
      exact hin
    exact (hfired.asyncInvoke hrun (fun m hm => nomatch hm)).emit ⟨s.log, rfl⟩ nofun nofun nofun

/-- what `OnAlarm` does: nothing, the hop, or the firing of the number in `seq_` -/
theorem onAlarm_cases (su : Setup) (cur : MessageQueue.MessageQueue_t) (m : Message)
    (o : AlarmCalls) (s : State) :
    s.onAlarm su cur m o = s ∨
    (cur ≠ su.reg_async_ ∧ s.onAlarm su cur m o = s.asyncInvoke (.onAlarm m)) ∨
    (cur = su.reg_async_ ∧ m.title = KALARM_MESSAGETITLE ∧ s.seq_ = m.body1 ∧
      s.onAlarm su cur m o = s.fire su o) := by
  unfold onAlarm
  split
  · exact Or.inl rfl
  next htitle =>
    split
    next hcur =>
      split
      · exact Or.inr (Or.inl ⟨hcur, rfl⟩)
      · exact Or.inl rfl
    next hcur =>
      split
      · exact Or.inl rfl
      next hseq =>
        split
        · exact Or.inl rfl
        · exact Or.inr (Or.inr ⟨not_not.mp hcur, not_not.mp htitle, not_not.mp hseq, rfl⟩)

theorem Inv.onAlarm {m : Message} (h : Inv s) (hm : Numbered m)
    (cur : MessageQueue.MessageQueue_t) (o : AlarmCalls) : Inv (s.onAlarm su cur m o) := by
  rcases onAlarm_cases su cur m o s with he | ⟨-, he⟩ | ⟨-, htitle, hseq, he⟩
  · rw [he]
    exact h
  · rw [he]
    refine h.asyncInvoke (fun n hn => nomatch hn) ?_
    intro m' hm'
    cases hm'
    exact hm
  · rw [he]
    refine h.fire ?_ o
    rw [hseq]
    exact ne_of_gt (hm htitle)

/-! ## every step -/

theorem Inv.others {a : Action} (h : Inv s) (hs : others su s a = some s') : Inv s' := by
  unfold Alarm.others at hs
  split at hs
  next posted =>
    cases hs
    rw [makeSeq_eq h.sg_seq_pos]
    split
    · exact h.drawn.broadcastMessage (fun _ => h.sg_seq_pos)
    · exact h.drawn
  next id =>
    split at hs
    next hid =>
      cases hs
      refine h.broadcastMessage (fun _ => ?_)
      rw [Bool.and_eq_true, Bool.and_eq_true] at hid
      exact of_decide_eq_true hid.1.2
    next => cases hs
  next m =>
    split at hs
    next htitle =>
      cases hs
      exact h.broadcastMessage (fun ht => absurd ht htitle)
    next => cases hs
  next => cases hs

theorem Inv.routine {a : Action} (h : Inv s) (hs : routine s a = some s') : Inv s' := by
  unfold Alarm.routine at hs
  split at hs
  · split at hs
    next seq hthread =>
      cases hs
      have hrun : Inv { s with runthread_ := .running seq } :=
        { h with }
      exact hrun.emit trivial nofun nofun nofun
    next => cases hs
  · split at hs
    · cases hs
      exact { h with }
    · cases hs
  · split at hs
    · cases hs
      exact { h with }
    · cases hs
  · cases hs

theorem Inv.take {m : Async} (h : Inv s) (hm : m ∈ s.async) :
    Inv (({ s with async := s.async.erase m, taken := m :: s.taken }).emit (.taken m)) := by
  have hmoved : Inv { s with async := s.async.erase m, taken := m :: s.taken } := by
    constructor
    · exact h.sg_seq_pos
    · exact h.each
    · exact h.below
    · exact h.current
    · exact h.waiting
    · exact fun n hn => h.pending n (List.mem_of_mem_erase hn)
    · exact h.broadcasts
    · exact fun m' hm' => h.async m' (List.mem_of_mem_erase hm')
    · intro m' hm'
      rcases List.mem_cons.mp hm' with rfl | hm'
      · exact h.async m' hm
      · exact h.taken m' hm'
  refine hmoved.emit ?_ nofun nofun nofun
  cases m with
  | onAlarm m => trivial
  | run n => exact h.pending n hm

theorem Inv.call {m : Async} (h : Inv s) (hm : m ∈ s.taken) (o : AlarmCalls) :
    Inv (({ s with taken := s.taken.erase m }).call su o m) := by
  have hleft : Inv { s with taken := s.taken.erase m } :=
    { h with taken := fun m' hm' => h.taken m' (List.mem_of_mem_erase hm') }
  cases m with
  | onAlarm m => exact hleft.onAlarm (h.taken m hm) _ o
  | run n =>
    have hrun : Inv { s with taken := s.taken.erase (.run n), executing := n :: s.executing } :=
      { hleft with }
    exact hrun.emit trivial nofun nofun nofun

/-- **Every step keeps the invariant.** -/
theorem step_inv {a : Action} (h : Inv s) (hs : step su s a = some s') : Inv s' := by
  cases a with
  | start _after o =>
    cases hs
    exact h.start _after o
  | cancel o =>
    cases hs
    exact h.cancel o
  | otherStart posted =>
    rw [step] at hs
    exact h.others hs
  | jni id =>
    rw [step] at hs
    exact h.others hs
  | foreign m =>
    rw [step] at hs
    exact h.others hs
  | broadcast m o =>
    rw [step] at hs
    obtain ⟨hm, hs⟩ := Option.ite_none_right_eq_some.mp hs
    cases hs
    have hleft : Inv { s with broadcasts := s.broadcasts.erase m } :=
      { h with broadcasts := fun m' hm' => h.broadcasts m' (List.mem_of_mem_erase hm') }
    exact hleft.onAlarm (h.broadcasts m hm) _ o
  | take m =>
    rw [step] at hs
    obtain ⟨hm, hs⟩ := Option.ite_none_right_eq_some.mp hs
    cases hs
    exact h.take hm
  | dispatch m o =>
    rw [step] at hs
    obtain ⟨hm, hs⟩ := Option.ite_none_right_eq_some.mp hs
    cases hs
    exact h.call hm o
  | finish seq =>
    rw [step] at hs
    cases (Option.ite_none_right_eq_some.mp hs).2
    exact { h with }
  | init =>
    rw [step] at hs
    exact h.routine hs
  | targetEnd =>
    rw [step] at hs
    exact h.routine hs
  | cleanup =>
    rw [step] at hs
    exact h.routine hs

theorem Reachable.inv (h : Reachable su s) : Inv s :=
  h.keep (fun _ _ _ hi _ hs => step_inv hi hs) inv_init

theorem isWaiting_iff (h : Reachable su s) : s.isWaiting = true ↔ s.seq_ ≠ INVAILD_SEQ := by
  rw [← h.inv.waiting]
  exact beq_iff_eq

/-- **The run messages**, in every run: one at most for a `Start`, posted while this `Start` is the
last one and is not cancelled, and none from before a `Cancel` is taken behind it. -/
theorem run_messages (h : Reachable su s) :
    (∀ n, s.log.count (.started n) ≤ 1 ∧ s.log.count (.posted n) ≤ 1) ∧
    (∀ l₁ n l₂, s.log = l₁ ++ .posted n :: l₂ → inForce l₂ = some n) ∧
    (∀ l₁ l₂ n, s.log = l₁ ++ .cancelled :: l₂ → .taken (.run n) ∈ l₁ →
      .started n ∈ l₁ ∧ .started n ∉ l₂) := by
  have heach := h.inv.each
  refine ⟨fun n => ⟨started_once heach, posted_once heach⟩, ?_, ?_⟩
  · intro l₁ n l₂ hl
    rw [hl] at heach
    obtain ⟨⟨before, rfl⟩, hfired, -⟩ := heach.right
    exact hfired.1
  · intro l₁ l₂ n hl htaken
    obtain ⟨newer, older, rfl⟩ := List.append_of_mem htaken
    rw [List.append_assoc, List.cons_append] at hl
    have hsince : Right (.taken (.run n)) (older ++ .cancelled :: l₂) := heach.at hl
    have hin : .started n ∈ newer ++ .taken (.run n) :: older :=
      List.mem_append_right _ (List.mem_cons_of_mem _ (sinceCancel_append hsince))
    refine ⟨hin, fun hold => ?_⟩
    -- the number would have been given out twice
    have hone := started_once (n := n) heach
    rw [hl] at hone
    have h1 := List.count_pos_iff.mpr (sinceCancel_append hsince)
    have h2 := List.count_pos_iff.mpr hold
    simp only [List.count_append, List.count_cons] at hone
    omega

/-- two starts over two queues, the run message of the first one cancelled -/
def restarted : List Action :=
  let first : Message := ⟨KALARM_MESSAGETITLE, 1⟩
  let second : Message := ⟨KALARM_MESSAGETITLE, 2⟩
  [.start 10 {}, .broadcast first {}, .take (.onAlarm first), .dispatch (.onAlarm first) {},
    .cancel {}, .start 10 {}, .broadcast second {}, .take (.onAlarm second),
    .dispatch (.onAlarm second) {}, .take (.run 2)]

theorem run_messages_restarted : ∃ s, Reachable ⟨1, 2, false, false⟩ s ∧
    s.log.count (.posted 1) = 1 ∧ .taken (.run 2) ∈ s.log ∧
    (∀ l₁ n l₂, s.log = l₁ ++ .posted n :: l₂ → inForce l₂ = some n) ∧
    (∀ l₁ l₂ n, s.log = l₁ ++ .cancelled :: l₂ → .taken (.run n) ∈ l₁ →
      .started n ∈ l₁ ∧ .started n ∉ l₂) := by
  have hrun : (Runs.exec (step ⟨1, 2, false, false⟩) init restarted).any (fun s =>
      s.log == [.taken (.run 2), .posted 2, .fired 2, .taken (.onAlarm ⟨KALARM_MESSAGETITLE, 2⟩),
        .started 2, .cancelled, .posted 1, .fired 1, .taken (.onAlarm ⟨KALARM_MESSAGETITLE, 1⟩),
        .started 1]) = true := by
    decide +kernel
  obtain ⟨s, hs, hlog⟩ := Runs.Run.of_test hrun
  have hlog := eq_of_beq hlog
  obtain ⟨-, hforce, hstale⟩ := run_messages hs
  refine ⟨s, hs, ?_, ?_, hforce, hstale⟩
  · rw [hlog]
    decide
  · rw [hlog]
    exact List.mem_cons_self

end

end Alarm
