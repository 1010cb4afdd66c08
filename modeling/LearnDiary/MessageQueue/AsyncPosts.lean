import LearnDiary.MessageQueue.AsyncResult
import LearnDiary.MessageQueue.Fate

/-!
# AsyncResult in the queue (comm/messagequeue/message_queue.h, message_queue.cc)

The function object of an `AsyncInvoke` comes into a list with its message and goes with the
wrapper: behind the dispatch, or when the message is taken out of the list.  `__AsyncInvokeHandler`
runs it in each of its calls.  So the history of a run says which acts the `AsyncResult` in it has
seen.

* `Lived`             a copy, the runs, and then the drop;
* `posted_acts`       the acts of a one-shot post in every reachable state;
* `posted_callback`   its callback, whatever the caller does with copies of its own.
-/

namespace MessageQueue
open State History

/-! ## acts of the history -/

/-- what an event is to the function object of `w` -/
def Event.act (w : MessageWrapper) : Event → Option AsyncResult.Act
  | .enqueue x => if x = w then some .copy else none
  | .invoke x _ => if x = w then some .run else none
  | .destroy x => if x = w then some .drop else none
  | .remove x _ => if x = w then some .drop else none
  | _ => none

def Event.frees (w : MessageWrapper) : Event → Bool
  | .destroy x => x == w
  | .remove x _ => x == w
  | _ => false

def State.acts (s : State) (w : MessageWrapper) : List AsyncResult.Act :=
  (s.log.filterMap (Event.act w)).reverse

/-- the acts of a history in their order -/
def Lived (w : MessageWrapper) (log : List Event) : Prop :=
  (log.filterMap (Event.act w)).reverse = List.replicate (log.count (.enqueue w)) .copy ++
    (List.replicate (log.filterMap (Event.invoked w)).length .run ++
      List.replicate (log.countP (Event.frees w)) .drop)

variable {D : State → MessageWrapper → Why → Prop} {E : Guard → Prop} {s s' : State}
  {w : MessageWrapper} {log es : List Event} {e : Event}

theorem Lived.idle (h : Lived w log) (he : e.act w = none) : Lived w (e :: log) := by
  have hcopy : e ≠ .enqueue w := by
    rintro rfl
    rw [Event.act, if_pos rfl] at he
    cases he
  have hrun : e.invoked w = none := by
    cases e with
    | invoke x y =>
      refine invoked_ne (fun hx => ?_) y
      rw [Event.act, if_pos hx] at he
      cases he
    | _ => rfl
  have hdrop : ¬ e.frees w = true := by
    intro hf
    cases e with
    | destroy x =>
      rw [Event.act, if_pos (eq_of_beq hf)] at he
      cases he
    | remove x why =>
      rw [Event.act, if_pos (eq_of_beq hf)] at he
      cases he
    | _ => cases hf
  unfold Lived
  rw [List.filterMap_cons_none he, List.count_cons_of_ne hcopy, List.filterMap_cons_none hrun,
    List.countP_cons_of_neg hdrop]
  exact h

theorem Lived.quiet (h : Lived w log) (hes : ∀ e ∈ es, e.act w = none) : Lived w (es ++ log) := by
  induction es with
  | nil => exact h
  | cons e es ih =>
    exact (ih fun x hx => hes x (List.mem_cons_of_mem _ hx)).idle (hes e List.mem_cons_self)

/-- the copy comes before all else -/
theorem Lived.copy (h : Lived w log) (hrun : log.filterMap (Event.invoked w) = [])
    (hdrop : log.countP (Event.frees w) = 0) : Lived w (.enqueue w :: log) := by
  unfold Lived at h ⊢
  have hact : (Event.enqueue w).act w = some .copy := if_pos rfl
  rw [List.filterMap_cons_some hact, List.reverse_cons, h, List.count_cons_self,
    List.filterMap_cons_none (show (Event.enqueue w).invoked w = none from rfl), hrun,
    List.countP_cons_of_neg (by exact Bool.false_ne_true), hdrop, List.length_nil,
    List.replicate_zero, List.replicate_zero, List.append_nil, List.append_nil,
    List.append_nil, List.replicate_succ']

theorem Lived.run (h : Lived w log) (hdrop : log.countP (Event.frees w) = 0)
    (y : HandlerWrapper) : Lived w (.invoke w y :: log) := by
  unfold Lived at h ⊢
  have hact : (Event.invoke w y).act w = some .run := if_pos rfl
  rw [List.filterMap_cons_some hact, List.reverse_cons, h,
    List.count_cons_of_ne (fun e => by cases e), List.filterMap_cons_some (invoked_self y),
    List.countP_cons_of_neg (by exact Bool.false_ne_true), hdrop, List.length_cons,
    List.replicate_succ', List.replicate_zero, List.append_nil, List.append_nil, List.append_assoc]

theorem Lived.drop (h : Lived w log) (he : e = .destroy w ∨ ∃ why, e = .remove w why) :
    Lived w (e :: log) := by
  have hact : e.act w = some .drop := by
    rcases he with rfl | ⟨why, rfl⟩
    · exact if_pos rfl
    · exact if_pos rfl
  have hfrees : e.frees w = true := by
    rcases he with rfl | ⟨why, rfl⟩
    · exact beq_self_eq_true w
    · exact beq_self_eq_true w
  have hinvoked : e.invoked w = none := by
    rcases he with rfl | ⟨why, rfl⟩
    · rfl
    · rfl
  have hne : e ≠ .enqueue w := by
    rcases he with rfl | ⟨why, rfl⟩
    · exact fun e => by cases e
    · exact fun e => by cases e
  unfold Lived at h ⊢
  rw [List.filterMap_cons_some hact, List.reverse_cons, h, List.count_cons_of_ne hne,
    List.filterMap_cons_none hinvoked, List.countP_cons_of_pos hfrees, List.replicate_succ',
    List.append_assoc, List.append_assoc]

/-! ## the account of a wrapper -/

theorem count_frees (w : MessageWrapper) (log : List Event) :
    log.countP (Event.frees w) = log.count (.destroy w) + log.countP (Event.removes w) := by
  refine count_or (p := (· == .destroy w)) fun e _ => ?_
  cases e with
  | destroy x =>
    refine ⟨?_, Bool.and_false _⟩
    show (x == w) = ((Event.destroy x == Event.destroy w) || false)
    rw [Bool.or_false, Bool.eq_iff_iff, beq_iff_eq, beq_iff_eq]
    exact ⟨fun hx => congrArg _ hx, fun hx => by cases hx; rfl⟩
  | _ => exact ⟨rfl, rfl⟩

theorem came_once {x : MessageWrapper} (h : ∃ w₀, .enqueue w₀ ∈ s.log ∧ w₀.Same x)
    (hone : x.oneShot = true) : .enqueue x ∈ s.log := by
  obtain ⟨w₀, h0, hsame⟩ := h
  rw [← hsame.2 (by rw [fixed_oneShot hsame.1]; exact hone)]
  exact h0

/-- no trace of a wrapper that is not there yet -/
theorem Account.unborn (h : Account s) (hone : w.oneShot = true) (hself : s.next ≤ w.self) :
    s.log.filterMap (Event.invoked w) = [] ∧ s.log.countP (Event.frees w) = 0 := by
  have hent := h.ordered.entries
  have hno : .enqueue w ∉ s.log := fun hw => Nat.not_lt.mpr hself (hent.logged w hw)
  have hpicks : s.log.countP (Event.picks w) = 0 := by
    refine List.countP_eq_zero.mpr fun e he hpick => ?_
    cases e with
    | pick x fit =>
      rw [eq_of_beq hpick] at he
      exact hno (came_once (hent.picked w fit he) hone)
    | _ => cases hpick
  have hremoves : s.log.countP (Event.removes w) = 0 := by
    refine List.countP_eq_zero.mpr fun e he hremove => ?_
    cases e with
    | remove x why =>
      rw [eq_of_beq hremove] at he
      exact hno (came_once (hent.removed w why he) hone)
    | _ => cases hremove
  have hcalls := (List.append_eq_nil_iff.mp (h.served.unpicked w hone hpicks)).1
  have hheld := h.served.held w hone
  refine ⟨List.reverse_eq_nil_iff.mp hcalls, ?_⟩
  rw [count_frees]
  omega

theorem picked_mem (h : 0 < log.countP (Event.picks w)) : ∃ fit, .pick w fit ∈ log := by
  obtain ⟨e, he, hpick⟩ := List.countP_pos_iff.mp h
  cases e with
  | pick x fit =>
    rw [eq_of_beq hpick] at he
    exact ⟨fit, he⟩
  | _ => cases hpick

/-- a wrapper is deleted once, and not while a loop runs it -/
theorem Account.frees_le (h : Account s) (hone : w.oneShot = true) (hw : .enqueue w ∈ s.log) :
    (s.frames w.postid.reg.queue).countP (Frame.runs w) + s.log.countP (Event.frees w) ≤ 1 := by
  have hbal := h.balance hw hone
  have hheld := h.served.held w hone
  rw [count_frees]
  omega

theorem Account.unfreed (h : Account s) (hone : w.oneShot = true)
    (hrun : 0 < (s.frames w.postid.reg.queue).countP (Frame.runs w)) :
    s.log.countP (Event.frees w) = 0 := by
  have hheld := h.served.held w hone
  have hpicked : 0 < s.log.countP (Event.picks w) := by omega
  obtain ⟨fit, hfit⟩ := picked_mem hpicked
  have hle := h.frees_le hone (came_once (h.ordered.entries.picked w fit hfit) hone)
  omega

/-! ## runs -/

theorem Lived.remove {x : MessageWrapper} (h : Lived w log) (why : Why) :
    Lived w (.remove x why :: log) := by
  by_cases hx : x = w
  · subst hx
    exact h.drop (.inr ⟨why, rfl⟩)
  · exact h.idle (if_neg hx)

theorem Lived.turn (hl : Lived w s.log) (h : Account s) (hone : w.oneShot = true) {t : Thread}
    {f : Frame} {pc : Pc} (hf : f ∈ s.frames t) (hpc : PcMove f.pc pc es) :
    Lived w (es ++ s.log) := by
  generalize hold : f.pc = old at hpc
  cases hpc with
  | idle n q => exact hl.idle rfl
  | wake | handlerReturn | finishPeriod => exact hl
  | invoke x d y l =>
    by_cases hx : x = w
    · subst hx
      have hruns : f.runs x = true := by
        unfold Frame.runs
        rw [hold]
        exact beq_self_eq_true x
      rw [← (h.served.home t f hf x d none (y :: l) hold).1] at hf
      exact hl.run (h.unfreed hone (List.countP_pos_iff.mpr ⟨f, hf, hruns⟩)) y
    · exact hl.idle (if_neg hx)
  | finish x =>
    by_cases hx : x = w
    · subst hx
      exact hl.drop (.inl rfl)
    · exact hl.idle (if_neg hx)

/-- **A move keeps the order of the acts.** -/
theorem Lived.move (hl : Lived w s.log) (h : Account s) (hone : w.oneShot = true)
    (hm : Move D E s s') : Lived w s'.log := by
  have hent := h.ordered.entries
  cases hm.entry with
  | quiet hp hn es hq hes =>
    cases hm.shift with
    | still hf hi hn' es' he hes' =>
      rw [hes]
      refine hl.quiet fun e hmem => ?_
      have hquiet := hq e hmem
      have houter := he e (grown hes hes' ▸ hmem)
      cases e with
      | enqueue | remove => cases hquiet
      | invoke | destroy => cases houter
      | _ => rfl
    | enter t b hk hf hi hn' hlog =>
      rw [hlog]
      exact hl
    | clear t f rest front info hf₀ hpc hi₀ hf hi hn' hlog =>
      rw [hlog]
      exact hl
    | pop t f rest front info hf₀ hpc hi₀ hf hi hn' hlog =>
      rw [hlog]
      exact hl
    | pick t f rest front info x d fit hf₀ hpc hi₀ hfit hd hx hf hi hn' hlog =>
      rw [hlog]
      exact hl.idle rfl
    | turn t f rest pc es' hf₀ hpc hf hi hn' hlog =>
      rw [hlog]
      exact hl.turn h hone (by rw [hf₀]; exact List.mem_cons_self) hpc
  | enqueue q x he hself hq hp hn hlog =>
    rw [hlog]
    have hdraw : Lived w (.draw x.postid.seq :: s.log) := hl.idle rfl
    by_cases hx : x = w
    · subst hx
      obtain ⟨hrun, hdrop⟩ := h.unborn hone hself.ge
      exact hdraw.copy hrun ((List.countP_cons_of_neg (by exact Bool.false_ne_true)).trans hdrop)
    · exact hdraw.idle (if_neg hx)
  | replace q l₁ x l₂ x' hl₀ hself hid hm' hq hd hp hn hlog =>
    rw [hlog]
    have hout : Lived w (.remove x .replace :: s.log) := hl.remove .replace
    by_cases hx : x' = w
    · subst hx
      obtain ⟨hrun, hdrop⟩ := h.unborn hone hself.ge
      have hne : ¬ (Event.remove x .replace).frees x' = true := by
        intro hf
        have hbelow := hent.below q x (Entries.mem_mid hl₀)
        rw [eq_of_beq hf, hself] at hbelow
        exact Nat.lt_irrefl _ hbelow
      exact hout.copy hrun ((List.countP_cons_of_neg hne).trans hdrop)
    · exact hout.idle (if_neg hx)
  | delete q l₁ x l₂ why hl₀ hd hp hn hlog =>
    rw [hlog]
    exact hl.remove why
  | take q l₁ x l₂ fit hl₀ hno hone' hp hn hlog =>
    rw [hlog]
    exact hl.idle rfl
  | fire q l₁ x l₂ x' fit hl₀ hno hone' hx' hp hn hlog =>
    rw [hlog]
    exact hl.idle rfl

theorem Reachable.lived (h : Reachable s) (hone : w.oneShot = true) : Lived w s.log :=
  (h.keep (P := fun s => Account s ∧ Lived w s.log)
    (fun _ _ hu hm => ⟨hu.1.move hm, hu.2.move hu.1 hone hm⟩)
    ⟨⟨Fifo.init, fun _ => Balanced.init, Served.init⟩, rfl⟩).2

/-- **The acts of a one-shot post**: a copy with its message, a run for each handler called with it,
and the drop where the wrapper is deleted. -/
theorem posted_acts (h : Reachable s) (hw : .enqueue w ∈ s.log) (hone : w.oneShot = true) :
    s.acts w = .copy :: (List.replicate (s.calls w).length .run ++
      List.replicate (s.log.countP (Event.frees w)) .drop) ∧
    s.log.countP (Event.frees w) ≤ 1 := by
  have hacc := h.account
  have hle := hacc.frees_le hone hw
  have hcount : s.log.count (.enqueue w) = 1 := by
    have hpos : 0 < s.log.count (.enqueue w) := List.count_pos_iff.mpr hw
    have hle : s.log.count (.enqueue w) ≤ s.log.countP (Event.brings (Key.wrapper w)) := by
      refine List.countP_mono_left fun e _ he => ?_
      rw [eq_of_beq he]
      exact beq_self_eq_true w.fixed
    have hbrings := hacc.ordered.brings_wrapper w
    omega
  have hlived : s.acts w = _ := h.lived hone
  refine ⟨?_, by omega⟩
  rw [hlived, hcount]
  unfold State.calls
  rw [List.length_reverse]
  rfl

example : (Runs.exec step init [.call 7 (.createMessageQueueInfo 7),
      .call 8 (.postMessage ⟨7, 1⟩ ⟨0, some 1⟩ ⟨.kImmediately, 0, 0⟩),
      .call 8 (.cancelMessage ⟨⟨7, 1⟩, 2⟩)]).map
    (State.acts · ⟨1, ⟨⟨7, 1⟩, 2⟩, ⟨0, some 1⟩, ⟨.kImmediately, 0, 0⟩, .kImmediately, 0⟩) =
      some [.copy, .drop] := by
  decide

/-! ## the callback -/

theorem count_runs {l : List (Bool × AsyncResult.Act)}
    (hcaller : ∀ a ∈ l, a.1 = false → a.2 ≠ .run) :
    (l.map (·.2)).count .run = ((l.filter (·.1)).map (·.2)).count .run := by
  induction l with
  | nil => rfl
  | cons a l ih =>
    have htail := ih fun b hb => hcaller b (List.mem_cons_of_mem _ hb)
    cases ha : a.1 with
    | false =>
      have hne := hcaller a List.mem_cons_self ha
      rw [List.map_cons, List.count_cons_of_ne hne,
        List.filter_cons_of_neg (by rw [ha]; exact Bool.false_ne_true)]
      exact htail
    | true =>
      rw [List.map_cons, List.count_cons, List.filter_cons_of_pos ha, List.map_cons,
        List.count_cons, htail]

/-- **The callback of a one-shot post** that reaches one handler at most: when the last copy is gone,
whatever the caller has done with its own, the callback has come once, with `true` exactly where a
handler was called, and nothing went wrong, unless the post is one of `Wrong`.  The acts of the
queue are marked `true`, those of the caller `false`. -/
theorem posted_callback {k : AsyncResult.Special} {callback : Bool} {holder : AsyncResult.Holder}
    {l : List (Bool × AsyncResult.Act)} {life : AsyncResult.Life} (h : Reachable s)
    (hw : .enqueue w ∈ s.log) (hone : w.oneShot = true) (hfit : (s.calls w).length ≤ 1)
    (hqueue : (l.filter (·.1)).map (·.2) = s.acts w)
    (hcaller : ∀ a ∈ l, a.1 = false → a.2 ≠ .run)
    (hlife : Runs.exec (AsyncResult.step k) (AsyncResult.construct k callback holder)
      (l.map (·.2)) = some life) (hgone : life.use_count = 0) :
    AsyncResult.Good callback (decide (s.calls w ≠ [])) life ↔
      ¬ AsyncResult.Wrong k callback holder (l.map (·.2)) := by
  have hruns : (l.map (·.2)).count .run = (s.calls w).length := by
    rw [count_runs hcaller, hqueue, (posted_acts h hw hone).1,
      List.count_cons_of_ne (by decide), List.count_append, List.count_replicate_self,
      List.count_eq_zero_of_not_mem, Nat.add_zero]
    exact fun hm => absurd (List.eq_of_mem_replicate hm) (by decide)
  have hmem : AsyncResult.Act.run ∈ l.map (·.2) ↔ s.calls w ≠ [] := by
    rw [← List.count_pos_iff, hruns, List.length_pos_iff]
  have hinv := AsyncResult.Inv.exec hlife (by omega)
  have hgood := hinv.good_iff hgone
  rw [decide_eq_decide.mpr hmem] at hgood
  exact hgood

end MessageQueue
