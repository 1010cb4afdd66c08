import LearnDiary.MessageQueue.Nesting

/-!
# Message queues: where the threads are

Beside the lists and the loops there is the place of each thread (`ctl`).  A move leaves it alone,
notifies the condition the thread may sleep on, or takes the thread itself from one place to the
next.

* `Move.place`       what a move does to the place of a thread;
* `Reachable.busy`   only the newest loop of a thread is not inside of a handler.
-/

namespace MessageQueue
open State

variable {D : State → MessageWrapper → Why → Prop} {E : Guard → Prop} {s s' : State} {t : Thread}

/-- a condition is notified: a loop clears its entry, or a wrapper is deleted -/
inductive Rings (D : State → MessageWrapper → Why → Prop) (s s' : State) : Cond → Prop
  | clear (t : Thread) (f : Frame) (rest : List Frame) (front : List RunLoopInfo)
      (info : RunLoopInfo) (hf₀ : s.frames t = f :: rest) (hpc : f.pc = .head)
      (hi₀ : s.infos t = front ++ [info]) (hf : s'.frames = s.frames)
      (hi : s'.infos = Function.update s.infos t (front ++ [info.clear]))
      (hp : s'.pending = s.pending) : Rings D s s' (.runing info.runing_cond)
  | replace (q : MessageQueue_t) (w : MessageWrapper) (hw : w ∈ s.pending q)
      (hd : D s w .replace) : Rings D s s' (.wait_end w.self)
  | delete (q : MessageQueue_t) (l₁ : List MessageWrapper) (w : MessageWrapper)
      (l₂ : List MessageWrapper) (why : Why) (hl₀ : s.pending q = l₁ ++ w :: l₂)
      (hd : why ≠ .release → D s w why) (hr : why = .release → s.infos q = [])
      (hf : s'.frames = s.frames) (hp : s'.pending = Function.update s.pending q (l₁ ++ l₂)) :
      Rings D s s' (.wait_end w.self)
  | finish (t : Thread) (f : Frame) (rest : List Frame) (w : MessageWrapper)
      (hf₀ : s.frames t = f :: rest) (hpc : f.pc = .dispatch w true none [])
      (hf : s'.frames = Function.update s.frames t ({ f with pc := .head } :: rest))
      (hp : s'.pending = s.pending) : Rings D s s' (.wait_end w.self)

/-- what a move does to the place of the thread -/
inductive Place (D : State → MessageWrapper → Why → Prop) (E : Guard → Prop) (t : Thread)
    (s s' : State) : Prop
  | same (hk : s'.ctl t = s.ctl t)
  | rung (c : Cond) (hr : Rings D s s' c) (hk : s'.ctl t = (s.ctl t).notify c)
  | enter (b : Breaker) (hk₀ : s.ctl t = .entering b) (hk : s'.ctl t = .free)
  | ran (m : MessagePost_t) (f : Frame) (rest : List Frame) (hk₀ : s.ctl t = .free)
      (hk : s'.ctl t = .ran m) (hf₀ : s.frames t = f :: rest) (hb : f.breaker_func_ = .gone m)
      (hpc : f.pc = .head) (hf : s'.frames = Function.update s.frames t rest)
      (hp : s'.pending = s.pending) (hcut : (∀ it ∈ s.pending t, it.postid ≠ m) ∨ E .cut)
  | turn (k : Ctl) (hT : Turns s t k) (hs : s' = s.setCtl t k)
  | come (e : Event) (hC : Comes E s t e) (hs : s' = (s.setCtl t .free).emit e)

theorem setCtl_of_ne {u : Thread} (h : t ≠ u) (k : Ctl) (s : State) :
    (s.setCtl u k).ctl t = s.ctl t := Function.update_of_ne h _ _

theorem setCtl_self (k : Ctl) (s : State) : (s.setCtl t k).ctl t = k := Function.update_self _ _ _

/-- **A move leaves a thread alone, wakes it, or is a move of its own.** -/
theorem Move.place (h : Move D E s s') (t : Thread) : Place D E t s s' := by
  cases h with
  | replace q c l₁ w l₂ w' hc hl hself hid hm hq hd =>
    refine .rung (.wait_end w.self) (.replace q w ?_ hd) rfl
    exact Entries.mem_mid ((pending_some hc).trans hl)
  | delete q c l₁ w l₂ why hc hl hd hr =>
    refine .rung (.wait_end w.self) (.delete q l₁ w l₂ why ((pending_some hc).trans hl) hd ?_ rfl
      (setQueue_pending s q _)) rfl
    intro hw
    rw [infos_some hc, hr hw]
  | enter u b c hk hc =>
    by_cases e : t = u
    · subst e
      exact .enter b hk (setCtl_self .free _)
    · exact .same (setCtl_of_ne e .free _)
  | clear u c f rest front info hk hf hpc hc hi =>
    exact .rung (.runing info.runing_cond) (.clear u f rest front info hf hpc
      ((infos_some hc).trans hi) rfl (setQueue_infos s u _)
      (setQueue_same s u _ (pending_some hc).symm)) rfl
  | pop u c f rest front info hk hf hpc hc hi hb =>
    let s₁ := (s.setQueue u (some { c with lst_runloop_info := front })).setFrames u rest
    by_cases e : t = u
    · subst e
      cases hb' : f.breaker_func_ with
      | gone m =>
        have hret : s₁.returned t f = s₁.setCtl t (.ran m) := by
          unfold returned
          rw [hb']
        refine .ran m f rest hk ?_ hf hb' hpc ?_ ?_ ?_
        · show (s₁.returned t f).ctl t = _
          rw [hret]
          exact setCtl_self _ _
        · rw [returned_frames]
          rfl
        · rw [returned_pending]
          exact setQueue_same s t _ (pending_some hc).symm
        · rw [pending_some hc]
          exact hb m hb'
      | none | user =>
        refine .same ?_
        show (s₁.returned t f).ctl t = _
        unfold returned
        rw [hb']
        rfl
    · refine .same ?_
      show (s₁.returned u f).ctl t = _
      unfold returned
      split
      · exact setCtl_of_ne e _ _
      · rfl
  | finish u f rest w hk hf hpc =>
    exact .rung (.wait_end w.self) (.finish u f rest w hf hpc rfl rfl) rfl
  | turn u k hT =>
    by_cases e : t = u
    · subst e
      exact .turn k hT rfl
    · exact .same (setCtl_of_ne e k s)
  | come u e' hC =>
    by_cases e : t = u
    · subst e
      exact .come e' hC rfl
    · exact .same (setCtl_of_ne e .free s)
  | tick | draw | create | install | uninstall | enqueue | setBreak | dropQueue | idle | pick | wake
  | invoke | handlerReturn | finishPeriod => exact .same rfl

theorem notify_blocked {k : Ctl} {c c' : Cond} {b : Bool} {x : Waiter}
    (hk : k.notify c' = .blocked c b x) :
    ∃ b', k = .blocked c b' x ∧ b = (b' || c == c') := by
  cases k with
  | blocked c₀ b' x₀ =>
    cases hk
    exact ⟨b', rfl, rfl⟩
  | _ => cases hk

theorem Move.begins (hm : Move D E s s') {k : Ctl} (hk : s'.ctl t = k) (hfree : k ≠ .free)
    (hran : ∀ m, k ≠ .ran m) (hwoken : ∀ c x, k ≠ .blocked c true x) :
    s.ctl t = k ∨ Turns s t k ∧ s' = s.setCtl t k := by
  cases hm.place t with
  | same hk' => exact Or.inl (hk'.symm.trans hk)
  | rung c hr hk' =>
    rw [hk'] at hk
    cases hc : s.ctl t with
    | blocked c' b x =>
      rw [hc] at hk
      have hb : (b || c' == c) = false := by
        cases hb : (b || c' == c) with
        | false => rfl
        | true =>
          refine absurd hk.symm (fun e => hwoken c' x (e.trans ?_))
          show Ctl.blocked c' (b || c' == c) x = _
          rw [hb]
      refine Or.inl (Eq.trans ?_ hk)
      show _ = Ctl.blocked c' (b || c' == c) x
      rw [hb, (Bool.or_eq_false_iff.mp hb).1]
    | _ =>
      rw [hc] at hk
      exact Or.inl hk
  | enter b' hk₀ hk' => exact absurd (hk.symm.trans hk') hfree
  | ran m f rest hk₀ hk' => exact absurd (hk.symm.trans hk') (hran m)
  | turn k' hT hs =>
    subst hs
    rw [setCtl_self] at hk
    subst hk
    exact Or.inr ⟨hT, rfl⟩
  | come e hC hs =>
    rw [hs] at hk
    exact absurd (hk.symm.trans (setCtl_self .free s)) hfree

theorem Move.entering (hm : Move D E s s') {b : Breaker} (hk : s'.ctl t = .entering b) :
    s.ctl t = .entering b ∨ Turns s t (.entering b) ∧ s' = s.setCtl t (.entering b) :=
  hm.begins hk (fun e => by cases e) (fun _ e => by cases e) (fun _ _ e => by cases e)

theorem Move.asleep (hm : Move D E s s') {c : Cond} {x : Waiter}
    (hk : s'.ctl t = .blocked c false x) : s.ctl t = .blocked c false x ∨
      Turns s t (.blocked c false x) ∧ s' = s.setCtl t (.blocked c false x) :=
  hm.begins hk (fun e => by cases e) (fun _ e => by cases e) (fun _ _ e => by cases e)

theorem Move.awake (hm : Move D E s s') {c : Cond} {x : Waiter}
    (hk : s'.ctl t = .blocked c true x) :
    s.ctl t = .blocked c true x ∨ s.ctl t = .blocked c false x ∧ Rings D s s' c := by
  cases hm.place t with
  | same hk' => exact Or.inl (hk'.symm.trans hk)
  | rung c' hr hk' =>
    obtain ⟨b, hkb, he⟩ := notify_blocked (hk'.symm.trans hk)
    cases b with
    | true => exact Or.inl hkb
    | false =>
      rw [Bool.false_or] at he
      rw [eq_of_beq he.symm]
      rw [eq_of_beq he.symm] at hkb
      exact Or.inr ⟨hkb, hr⟩
  | enter b hk₀ hk' | ran m f rest hk₀ hk' =>
    rw [hk'] at hk
    cases hk
  | turn k hT hs =>
    subst hs
    rw [setCtl_self] at hk
    subst hk
    cases hT
  | come e hC hs =>
    rw [hs, show ((s.setCtl t .free).emit e).ctl t = .free from setCtl_self .free s] at hk
    cases hk

/-- events of a thread that comes back -/
def Event.comes : Event → Bool
  | .waited _ _ => true
  | .cancelWaited _ _ => true
  | _ => false

/-- a thread comes back in a move of its own -/
theorem Move.comes (h : Move D E s s') :
    (∃ es, s'.log = es ++ s.log ∧ ∀ e ∈ es, e.comes = false) ∨
      ∃ u e, Comes E s u e ∧ s' = (s.setCtl u .free).emit e := by
  cases h with
  | come u e hC => exact Or.inr ⟨u, e, hC, rfl⟩
  | pop u c f rest =>
    refine Or.inl ⟨[], ?_, fun e he => by cases he⟩
    rw [returned_log]
    rfl
  | tick | setBreak | enter | clear | wake | handlerReturn | finishPeriod | turn =>
    exact Or.inl ⟨[], rfl, fun e he => by cases he⟩
  | draw => exact Or.inl ⟨[.draw (s.s_seq + 1)], rfl, by simp [Event.comes]⟩
  | create q =>
    exact Or.inl ⟨[.install ⟨⟨q, s.s_seq + 1⟩, 0, false⟩, .create q, .draw (s.s_seq + 1)], rfl,
      by simp [Event.comes]⟩
  | install q c x => exact Or.inl ⟨[.install x, .draw (s.s_seq + 1)], rfl, by simp [Event.comes]⟩
  | uninstall q c l₁ x => exact Or.inl ⟨[.uninstall x], rfl, by simp [Event.comes]⟩
  | enqueue q c w => exact Or.inl ⟨[.enqueue w, .draw (s.s_seq + 1)], rfl, by simp [Event.comes]⟩
  | replace q c l₁ w l₂ w' =>
    exact Or.inl ⟨[.enqueue w', .remove w .replace], rfl, by simp [Event.comes]⟩
  | delete q c l₁ w l₂ why => exact Or.inl ⟨[.remove w why], rfl, by simp [Event.comes]⟩
  | dropQueue u => exact Or.inl ⟨[.release u], rfl, by simp [Event.comes]⟩
  | idle u => exact Or.inl ⟨[.idle u], rfl, by simp [Event.comes]⟩
  | pick u c f rest front info w => exact Or.inl ⟨[.pick w _], rfl, by simp [Event.comes]⟩
  | invoke u f rest w d x => exact Or.inl ⟨[.invoke w x], rfl, by simp [Event.comes]⟩
  | finish u f rest w => exact Or.inl ⟨[.destroy w], rfl, by simp [Event.comes]⟩

/-! ## the loops below the newest one -/

theorem Shift.stay (hs : Shift s s') (hk : s.ctl t ≠ .free) (hk' : s'.ctl t ≠ .free) :
    s'.frames t = s.frames t := by
  cases hs with
  | still hf | clear u f rest front info hf₀ hpc hi₀ hf => rw [hf]
  | enter u b hku hf hi hn hl hfree =>
    rw [hf]
    apply Function.update_of_ne
    rintro rfl
    exact hk' hfree
  | pop u f rest front info hf₀ hpc hi₀ hf hi hn hl hku
  | pick u f rest front info w d fit hf₀ hpc hi₀ hfit hd hw hf hi hn hl hku
  | turn u f rest pc es hf₀ hpc hf hi hn hl hku =>
    rw [hf]
    apply Function.update_of_ne
    rintro rfl
    exact hk hku

structure Busy (s : State) : Prop where
  below : ∀ t f rest, s.frames t = f :: rest → ∀ g ∈ rest, Frame.inHandler g = true
  entering : ∀ t b, s.ctl t = .entering b → ∀ g ∈ s.frames t, Frame.inHandler g = true

theorem Busy.init : Busy init where
  below _ _ _ h := by cases h
  entering _ _ h := by cases h

theorem Busy.all (h : Busy s) (hc : s.canCall t = true) : ∀ g ∈ s.frames t, Frame.inHandler g = true := by
  have htop := (Bool.and_eq_true_iff.mp hc).2
  intro g hg
  cases hf : s.frames t with
  | nil =>
    rw [hf] at hg
    cases hg
  | cons f rest =>
    rw [hf] at hg htop
    rcases List.mem_cons.mp hg with rfl | hg
    · exact htop
    · exact h.below t f rest hf g hg

/-- **Only the newest loop of a thread is outside of a handler.** -/
theorem Busy.move (h : Busy s) (hm : Move D E s s') : Busy s' := by
  have hother : ∀ {u : Thread} {l : List Frame}, s'.frames = Function.update s.frames u l →
      (∀ f rest, l = f :: rest → ∀ g ∈ rest, Frame.inHandler g = true) →
      ∀ t f rest, s'.frames t = f :: rest → ∀ g ∈ rest, Frame.inHandler g = true := by
    intro u l hf hl t f rest ht
    rw [hf] at ht
    by_cases e : t = u
    · subst e
      rw [Function.update_self] at ht
      exact hl f rest ht
    · rw [Function.update_of_ne e] at ht
      exact h.below t f rest ht
  constructor
  · cases hm.shift with
    | still hf | clear u f rest front info hf₀ hpc hi₀ hf =>
      rw [hf]
      exact h.below
    | enter u b hk hf =>
      apply hother hf
      intro f rest he g hg
      cases he
      exact h.entering u b hk g hg
    | pop u f rest front info hf₀ hpc hi₀ hf =>
      apply hother hf
      intro f' rest' he g hg
      apply h.below u f rest hf₀ g
      rw [he]
      exact List.mem_cons_of_mem _ hg
    | pick u f rest front info w d fit hf₀ hpc hi₀ hfit hd hw hf
    | turn u f rest pc es hf₀ hpc hf =>
      apply hother hf
      intro f' rest' he g hg
      cases he
      exact h.below u f rest hf₀ g hg
  · intro t b hk
    have hne : s'.ctl t ≠ .free := by
      rw [hk]
      exact fun e => by cases e
    rcases hm.entering hk with hk₀ | ⟨hT, rfl⟩
    · rw [hm.shift.stay (by rw [hk₀]; exact fun e => by cases e) hne]
      exact h.entering t b hk₀
    · cases hT with
      | entering b hb hc => exact h.all hc
      | waiting m it hc => exact h.all hc

theorem Reachable.busy (h : Reachable s) : Busy s :=
  h.keep (fun _ _ hu hm => hu.move hm) Busy.init

end MessageQueue
