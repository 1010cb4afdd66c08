import LearnDiary.MessageQueue.Fate

/-!
# Message queues: the object of a dispatch

A loop keeps a bare pointer to the wrapper it has picked, and the running fields of its entry, while
the lock is free.  A one-shot wrapper is out of reach of the other operations by then.  A periodic
one is not: it stays in the list, where a call may delete it.

* `Intact`           what keeps the wrapper of a loop from being deleted;
* `object_outlives`  it is not, in a run in which no call deletes a periodic message that runs.
-/

namespace MessageQueue
open State

/-- **The objects of the loops are there**: none that is the running message of a loop has been
deleted by a call or with its queue, and none that a loop dispatches has been deleted at all. -/
def Safe (s : State) : Prop :=
  (∀ q, ∀ i ∈ s.infos q, ∀ a, i.runing_message = some a →
    ∀ x why, .remove x why ∈ s.log → x.self ≠ a) ∧
  ∀ t, ∀ f ∈ s.frames t, ∀ w, f.message = some w →
    (∀ x why, .remove x why ∈ s.log → x.self ≠ w.self) ∧ ∀ x, .destroy x ∈ s.log → x.self ≠ w.self

/-- no call deletes a periodic message that is the running message of a loop -/
def Spares (s : State) (a : Act) : Prop :=
  ∀ w ∈ a.victims s, w.oneShot = false → ∀ q, ∀ i ∈ s.infos q, i.runing_message ≠ some w.self

/-- what `Spares` says of a message to be deleted -/
def Spared (s : State) (w : MessageWrapper) (_ : Why) : Prop :=
  w.oneShot = false → ∀ q, ∀ i ∈ s.infos q, i.runing_message ≠ some w.self

variable {D : State → MessageWrapper → Why → Prop} {E : Guard → Prop} {s s' : State} {w : MessageWrapper}

/-- wrappers at one address are one wrapper -/
theorem Entries.fixed_of_self {x y : MessageWrapper} (h : Entries s)
    (hx : ∃ w₀, .enqueue w₀ ∈ s.log ∧ w₀.Same x) (hy : ∃ w₀, .enqueue w₀ ∈ s.log ∧ w₀.Same y)
    (hself : x.self = y.self) : x.fixed = y.fixed := by
  obtain ⟨x₀, hx₀, hxs⟩ := hx
  obtain ⟨y₀, hy₀, hys⟩ := hy
  have heq : x₀ = y₀ := h.once x₀ y₀ hx₀ hy₀ (by rw [fixed_self hxs.1, fixed_self hys.1, hself])
  rw [← hxs.1, ← hys.1, heq]

theorem Entry.removed {x : MessageWrapper} {why : Why} (h : Entry D E s s')
    (hx : .remove x why ∈ s'.log) : .remove x why ∈ s.log ∨ ∃ q, x ∈ s.pending q ∧
      (why ≠ .release → D s x why) ∧ (why = .release → s.infos q = []) := by
  cases h with
  | quiet hp hn es hq hl =>
    rw [hl] at hx
    rcases List.mem_append.mp hx with hx | hx
    · cases hq _ hx
    · exact Or.inl hx
  | enqueue q y he hself hq hp hn hl =>
    rw [hl] at hx
    simp only [List.mem_cons, reduceCtorEq, false_or] at hx
    exact Or.inl hx
  | replace q l₁ y l₂ y' hl₀ hself hid hm hq hd hp hn hl =>
    rw [hl] at hx
    rcases List.mem_cons.mp hx with hx | hx
    · cases hx
    · rcases List.mem_cons.mp hx with hx | hx
      · cases hx
        exact Or.inr ⟨q, Entries.mem_mid hl₀, fun _ => hd, fun e => by cases e⟩
      · exact Or.inl hx
  | delete q l₁ y l₂ why' hl₀ hd hp hn hl hr =>
    rw [hl] at hx
    rcases List.mem_cons.mp hx with hx | hx
    · cases hx
      exact Or.inr ⟨q, Entries.mem_mid hl₀, hd, hr⟩
    · exact Or.inl hx
  | take q l₁ y l₂ fit hl₀ hno hone hp hn hl | fire q l₁ _ l₂ y fit hl₀ hno hone hw' hp hn hl =>
    rw [hl] at hx
    rcases List.mem_cons.mp hx with hx | hx
    · cases hx
    · exact Or.inl hx

/-- why the running messages are not deleted -/
structure Intact (s : State) : Prop where
  account : Account s
  nesting : Nesting s
  ran : ∀ t, ∀ f ∈ s.frames t, ∀ w, f.message = some w → ∃ w₀, .enqueue w₀ ∈ s.log ∧ w₀.Same w
  destroyed : ∀ w, .destroy w ∈ s.log → w.oneShot = true
  shown : ∀ q, ∀ i ∈ s.infos q, ∀ a, i.runing_message = some a →
    ∃ w fit, .pick w fit ∈ s.log ∧ w.self = a ∧ w.postid.reg.queue = q
  kept : ∀ q, ∀ i ∈ s.infos q, ∀ a, i.runing_message = some a →
    ∀ x why, .remove x why ∈ s.log → x.self ≠ a

theorem Shift.destroyed {es : List Event} (hs : Shift s s') (hl : s'.log = es ++ s.log)
    (hw : .destroy w ∈ es) : ∃ t, ∃ f ∈ s.frames t, f.pc = .dispatch w true none [] := by
  rcases hs.news hl hw rfl with ⟨x, fit, he⟩ | ⟨t, f, hf, pc, es', hpc, he⟩
  · cases he
  · generalize hold : f.pc = old at hpc
    cases hpc with
    | wake | handlerReturn | finishPeriod => cases he
    | idle => cases List.mem_singleton.mp he
    | invoke => cases List.mem_singleton.mp he
    | finish x =>
      cases List.mem_singleton.mp he
      exact ⟨t, f, hf, hold⟩

theorem Move.came (hm : Move D E s s') (hent : Entries s)
    (h : ∀ t, ∀ f ∈ s.frames t, ∀ w, f.message = some w → ∃ w₀, .enqueue w₀ ∈ s.log ∧ w₀.Same w)
    (t : Thread) (f : Frame) (hf : f ∈ s'.frames t) (w : MessageWrapper) (hw : f.message = some w) :
    ∃ w₀, .enqueue w₀ ∈ s'.log ∧ w₀.Same w := by
  obtain ⟨es, hl⟩ := hm.entry.log
  rw [hl]
  rcases hm.shift.running hf hw with ⟨f₀, hf₀, -, hw₀⟩ | ⟨it, hit, hsame, -⟩
  · obtain ⟨w₀, h0, hsame⟩ := h t f₀ hf₀ w hw₀
    exact ⟨w₀, List.mem_append_right _ h0, hsame⟩
  · obtain ⟨w₀, h0, hsame₀⟩ := hent.came t it hit
    exact ⟨w₀, List.mem_append_right _ h0, hsame₀.trans hsame⟩

/-- **A move keeps the running messages**, if it spares the periodic ones. -/
theorem Intact.move (h : Intact s) (hm : Move Spared E s s') : Intact s' := by
  have hent := h.account.ordered.entries
  obtain ⟨es, hl⟩ := hm.entry.log
  have hmono : ∀ e ∈ s.log, e ∈ s'.log := by
    intro e he
    rw [hl]
    exact List.mem_append_right _ he
  refine ⟨h.account.move hm, h.nesting.step hm.shift, hm.came hent h.ran, ?_, ?_, ?_⟩
  · intro w hw
    rw [hl] at hw
    rcases List.mem_append.mp hw with hw | hw
    · obtain ⟨t, f, hf, hpc⟩ := hm.shift.destroyed hl hw
      exact (h.account.served.home t f hf w true none [] hpc).2.symm
    · exact h.destroyed w hw
  · intro q i hi a ha
    rcases hm.shift.shown hi with ⟨j, hj, hja, -⟩ | ⟨hnone, -⟩ | ⟨w, fit, it, hl', hwa, -, hit, hsame⟩
    · obtain ⟨w, fit, hw, hwa, hq⟩ := h.shown q j hj a (hja.trans ha)
      exact ⟨w, fit, hmono _ hw, hwa, hq⟩
    · rw [hnone] at ha
      cases ha
    · refine ⟨w, fit, ?_, Option.some.inj (hwa.symm.trans ha), ?_⟩
      · rw [hl']
        exact List.mem_cons_self
      · rw [← fixed_postid hsame.1, hent.home q it hit]
  · intro q i hi a ha x why hx
    rcases hm.shift.shown hi with ⟨j, hj, hja, -⟩ | ⟨hnone, -⟩ | ⟨w, fit, it, hl', hwa, -, hit, hsame⟩
    · rw [ha] at hja
      rcases hm.entry.removed hx with hx | ⟨p, hxp, hd, hr⟩
      · exact h.kept q j hj a hja x why hx
      · -- a message that goes from the list is the running one of no loop
        rintro rfl
        obtain ⟨w, fit, hw, hws, hwq⟩ := h.shown q j hj x.self hja
        have hfixed : w.fixed = x.fixed :=
          hent.fixed_of_self (hent.picked w fit hw) (hent.came p x hxp) hws
        by_cases hrel : why = .release
        · have hpq : p = q := by
            rw [← hent.home p x hxp, ← fixed_postid hfixed, hwq]
          rw [← hpq, hr hrel] at hj
          cases hj
        · cases hone : x.oneShot with
          | false => exact hd hrel hone q j hj hja
          | true =>
            have hends := h.account.unended hxp _ hw
            have htrue : (w.oneShot && w.fixed == x.fixed) = true := by
              rw [fixed_oneShot hfixed, hone, hfixed, beq_self_eq_true]
              rfl
            exact Bool.false_ne_true (hends.symm.trans htrue)
    · rw [hnone] at ha
      cases ha
    · -- what is picked comes from the list
      have hwa : w.self = a := Option.some.inj (hwa.symm.trans ha)
      have hx' : .remove x why ∈ s.log := by
        rw [hl'] at hx
        rcases List.mem_cons.mp hx with hx | hx
        · cases hx
        · exact hx
      rintro rfl
      have hfixed : x.fixed = it.fixed := by
        refine hent.fixed_of_self (hent.removed x why hx') (hent.came q it hit) ?_
        rw [← hwa, fixed_self hsame.1]
      have hends := h.account.unended hit _ hx'
      have htrue : (x.fixed == it.fixed) = true := by
        rw [hfixed, beq_self_eq_true]
      exact Bool.false_ne_true (hends.symm.trans htrue)

theorem Frame.runs_of_message {f : Frame} (h : f.message = some w) : f.runs w = true := by
  unfold Frame.message at h
  unfold Frame.runs
  generalize f.pc = pc at h ⊢
  cases pc with
  | dispatch x d r l =>
    have hx : x = w := Option.some.inj h
    subst hx
    exact beq_self_eq_true x
  | _ => cases h

theorem Frame.Matches.shows {f : Frame} {i : RunLoopInfo} (h : f.Matches i)
    (hw : f.message = some w) : i.runing_message = some w.self ∧ i.runing_message_id = w.postid := by
  have h2 := h.2
  unfold Frame.message at hw
  split at hw
  · rename_i x d r l hpc
    rw [hpc] at h2
    rw [← Option.some.inj hw]
    exact ⟨h2.2.1, h2.1⟩
  · cases hw

theorem Intact.safe (h : Intact s) : Safe s := by
  have hent := h.account.ordered.entries
  refine ⟨h.kept, fun t f hf w hw => ⟨?_, ?_⟩⟩
  · obtain ⟨i, hi, hmatch⟩ := h.nesting.entry hf
    exact h.kept t i hi w.self (hmatch.shows hw).1
  · intro x hx hself
    -- a one-shot wrapper is destroyed by the one loop that runs it
    have hxone := h.destroyed x hx
    have hheld := h.account.served.held x hxone
    have hxcount := List.count_pos_iff.mpr hx
    obtain ⟨e, he, hpick⟩ := List.countP_pos_iff.mp
      (show 0 < s.log.countP (Event.picks x) by omega)
    cases e with
    | pick y fit =>
      rw [eq_of_beq hpick] at he
      have hxin := hent.enqueue_of_pick he hxone
      have hfixed : w.fixed = x.fixed :=
        hent.fixed_of_self (h.ran t f hf w hw) ⟨x, hxin, .refl x⟩ hself.symm
      have hwx : w = x := alike hent hxin hxone (h.ran t f hf w hw) hfixed
      subst hwx
      have hbal := h.account.balance hxin hxone
      have hhome : w.postid.reg.queue = t := by
        unfold Frame.message at hw
        split at hw
        · rename_i y d r l hpc
          cases hw
          exact (h.account.served.home t f hf w d r l hpc).1
        · cases hw
      have hruns : 0 < (s.frames w.postid.reg.queue).countP (Frame.runs w) := by
        rw [hhome]
        exact List.countP_pos_iff.mpr ⟨f, hf, Frame.runs_of_message hw⟩
      omega
    | _ => cases hpick

theorem Intact.init : Intact init where
  account := ⟨Fifo.init, fun _ => Balanced.init, Served.init⟩
  nesting := Nesting.init
  ran _ _ h := by cases h
  destroyed _ h := by cases h
  shown _ _ h := by cases h
  kept _ _ h := by cases h

theorem run_intact (hr : Runs.Run step Spares init s) : Intact s := by
  refine (keep_run (E := fun _ => True) hr rfl ?_ trivial (fun _ _ _ _ => trivial)
    (fun _ _ _ _ _ _ => trivial) (fun _ _ hu hm => hu.move hm) Intact.init).1
  intro u a hu hc w hw v hv _ hone q i hi
  have hinfos : v.infos = u.infos := congrArg (·.2.1) hv
  rw [hinfos] at hi
  exact hc w hw hone q i hi

/-- **The object of a message outlives its dispatch**, in every run in which no call deletes a
periodic message that is the running message of a loop. -/
theorem object_outlives (hr : Runs.Run step Spares init s) : Safe s := (run_intact hr).safe

def periodicCall : List Act :=
  [.call 7 (.createMessageQueueInfo 7), .call 7 (.installMessageHandler 1 false 7),
    .call 8 (.postMessage ⟨7, 2⟩ ⟨1, none⟩ ⟨.kPeriod, 0, 5⟩), .run 7 false, .enter 7,
    .loop 7 false, .callHandler 7]

def periodic : MessageWrapper :=
  ⟨1, ⟨⟨7, 2⟩, 3⟩, ⟨1, none⟩, ⟨.kPeriod, 0, 5⟩, .kPeriod, 0⟩

theorem object_outlives_call : ∃ s, Runs.Run step Spares init s ∧
    (∃ f ∈ s.frames 7, f.message = some periodic) ∧ Safe s := by
  have hruns : (Runs.exec step init periodicCall).any (fun s =>
      (s.frames 7).any (fun f => f.message == some periodic)) = true := by decide
  have hspares : ∀ a ∈ periodicCall, ∀ t, Spares t a := by
    intro a ha t w hw
    have hnil : a.victims t = [] := by
      unfold periodicCall at ha
      simp only [List.mem_cons, List.not_mem_nil, or_false] at ha
      rcases ha with rfl | rfl | rfl | rfl | rfl | rfl | rfl
      all_goals rfl
    rw [hnil] at hw
    cases hw
  cases e : Runs.exec step init periodicCall with
  | none =>
    rw [e] at hruns
    cases hruns
  | some s =>
    rw [e] at hruns
    obtain ⟨f, hf, hw⟩ := List.any_eq_true.mp hruns
    have hr := Runs.Run.of_exec_all e hspares
    exact ⟨s, hr, ⟨f, hf, eq_of_beq hw⟩, object_outlives hr⟩

/-- the handler of a periodic message cancels it -/
theorem object_deleted : ¬ ∀ s, Reachable s → Safe s := by
  intro hall
  obtain ⟨s, hr, hs⟩ := Runs.Run.of_test
    (f := fun s => (s.frames 7).any (fun f => f.message == some periodic) &&
      s.log.contains (.remove periodic .cancelPost))
    (show (Runs.exec step init (periodicCall ++ [.call 7 (.cancelMessage ⟨⟨7, 2⟩, 3⟩)])).any _ = true
      by decide)
  obtain ⟨h1, h2⟩ := Bool.and_eq_true_iff.mp hs
  obtain ⟨f, hf, hw⟩ := List.any_eq_true.mp h1
  exact ((hall s hr).2 7 f hf periodic (eq_of_beq hw)).1 periodic .cancelPost
    (List.contains_iff_mem.mp h2) rfl

end MessageQueue
