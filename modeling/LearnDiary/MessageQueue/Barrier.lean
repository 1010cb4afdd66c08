import LearnDiary.Lib.History
import LearnDiary.MessageQueue.Ids
import LearnDiary.MessageQueue.Places

/-!
# Message queues: cancel and wait

`ScopeRegister::CancelAndWait` takes the handler out of the list, deletes its messages and sleeps
on the condition of the outermost loop that has the handler in its snapshot.  When that loop comes
back to its head, the loops inside of it are gone, and no loop can take the handler up again.

* `Registry`          a handler is taken out of the list no more often than it came in;
* `Barred`            what is known of a handler while a thread cancels it and waits;
* `cancel_and_wait`   behind the return the handler does not run and is not called.
-/

namespace MessageQueue
open State History

/-- the id is given to a handler -/
def Event.installs (h : MessageHandler_t) : Event → Bool
  | .install x => x.reg == h
  | _ => false

def Event.uninstalls (h : MessageHandler_t) : Event → Bool
  | .uninstall x => x.reg == h
  | _ => false

def Frame.executes (h : MessageHandler_t) (f : Frame) : Prop :=
  ∃ w d x l, f.pc = .dispatch w d (some x) l ∧ x.reg = h

variable {D : State → MessageWrapper → Why → Prop} {E : Guard → Prop} {s s' : State}
  {h : MessageHandler_t} {t : Thread}

/-! ## the handlers of a queue -/

theorem Shift.snapshot (hs : Shift s s') {q : MessageQueue_t} {i : RunLoopInfo}
    (hi : i ∈ s'.infos q) :
    (∃ j ∈ s.infos q, j.runing_cond = i.runing_cond ∧
      ∀ r ∈ i.runing_handler, r ∈ j.runing_handler ∨ ∃ x ∈ s.installed q, x.reg = r) ∨
    i.runing_cond = s.next ∧ i.runing_handler = [] := by
  have hold : i ∈ s.infos q → ∃ j ∈ s.infos q, j.runing_cond = i.runing_cond ∧
      ∀ r ∈ i.runing_handler, r ∈ j.runing_handler ∨ ∃ x ∈ s.installed q, x.reg = r :=
    fun hm => ⟨i, hm, rfl, fun r hr => Or.inl hr⟩
  cases hs with
  | still hf hi' | turn t f rest pc es hf₀ hpc hf hi' =>
    rw [hi'] at hi
    exact Or.inl (hold hi)
  | enter t b hk hf hi' =>
    rw [hi'] at hi
    replace hi := Elements.mem_update hi
    rcases hi with hi | ⟨rfl, hi⟩
    · exact Or.inl (hold hi)
    · rcases List.mem_append.mp hi with hi | hi
      · exact Or.inl (hold hi)
      · rw [List.mem_singleton.mp hi]
        exact Or.inr ⟨rfl, rfl⟩
  | clear t f rest front info hf₀ hpc hi₀ hf hi' =>
    rw [hi'] at hi
    replace hi := Elements.mem_update hi
    rcases hi with hi | ⟨rfl, hi⟩
    · exact Or.inl (hold hi)
    · rw [hi₀] at hold ⊢
      rcases List.mem_append.mp hi with hi | hi
      · exact Or.inl (hold (List.mem_append_left _ hi))
      · rw [List.mem_singleton.mp hi]
        refine Or.inl ⟨info, List.mem_append_right _ List.mem_cons_self, rfl, fun r hr => ?_⟩
        cases hr
  | pop t f rest front info hf₀ hpc hi₀ hf hi' =>
    rw [hi'] at hi
    replace hi := Elements.mem_update hi
    rcases hi with hi | ⟨rfl, hi⟩
    · exact Or.inl (hold hi)
    · rw [hi₀] at hold ⊢
      exact Or.inl (hold (List.mem_append_left _ hi))
  | pick t f rest front info w d fit hf₀ hpc hi₀ hfit hd hw hf hi' =>
    rw [hi'] at hi
    replace hi := Elements.mem_update hi
    rcases hi with hi | ⟨rfl, hi⟩
    · exact Or.inl (hold hi)
    · rw [hi₀] at hold ⊢
      rcases List.mem_append.mp hi with hi | hi
      · exact Or.inl (hold (List.mem_append_left _ hi))
      · rw [List.mem_singleton.mp hi]
        refine Or.inl ⟨info, List.mem_append_right _ List.mem_cons_self, rfl, fun r hr => ?_⟩
        obtain ⟨x, hx, hxr⟩ := List.mem_map.mp hr
        rw [hfit] at hx
        exact Or.inr ⟨x, (List.mem_filter.mp hx).1, hxr⟩

/-- the handlers in a list and in the snapshots of its loops belong to the queue, and `h` leaves the
list no more often than it comes in -/
structure Registry (h : MessageHandler_t) (s : State) : Prop where
  home : ∀ q, ∀ x ∈ s.installed q, x.reg.queue = q
  shown : ∀ q, ∀ i ∈ s.infos q, ∀ r ∈ i.runing_handler, r.queue = q
  count : s.log.countP (Event.uninstalls h) + (s.installed h.queue).countP (·.reg == h) ≤
    s.log.countP (Event.installs h)

theorem Registry.init : Registry h init where
  home _ _ hx := by cases hx
  shown _ _ hi := by cases hi
  count := le_rfl

theorem count_unregistered {es : List Event} (log : List Event) (he : ∀ e ∈ es, e.unregistered = true) :
    (es ++ log).countP (Event.installs h) = log.countP (Event.installs h) ∧
      (es ++ log).countP (Event.uninstalls h) = log.countP (Event.uninstalls h) := by
  have hnone : ∀ e ∈ es, ¬ e.installs h = true ∧ ¬ e.uninstalls h = true := by
    intro e hm
    have hq := he e hm
    cases e with
    | install | uninstall => cases hq
    | _ => exact ⟨Bool.false_ne_true, Bool.false_ne_true⟩
  rw [List.countP_append, List.countP_append, List.countP_eq_zero.mpr (fun e hm => (hnone e hm).1),
    List.countP_eq_zero.mpr (fun e hm => (hnone e hm).2), Nat.zero_add, Nat.zero_add]
  exact ⟨rfl, rfl⟩

theorem Registry.home_update (hr : Registry h s) {q : MessageQueue_t} {l : List HandlerWrapper}
    (hi : s'.installed = Function.update s.installed q l) (hl : ∀ x ∈ l, x.reg.queue = q) :
    ∀ p, ∀ x ∈ s'.installed p, x.reg.queue = p := by
  rw [hi]
  exact (Function.forall_update_iff _ fun p (l : List HandlerWrapper) => ∀ x ∈ l, x.reg.queue = p).mpr
    ⟨hl, fun p _ => hr.home p⟩

theorem Registry.lists (hr : Registry h s) (hm : Move D E s s') :
    (∀ q, ∀ x ∈ s'.installed q, x.reg.queue = q) ∧
      s'.log.countP (Event.uninstalls h) + (s'.installed h.queue).countP (·.reg == h) ≤
        s'.log.countP (Event.installs h) := by
  have hcount := hr.count
  cases hm.handlers with
  | same hi es he hl =>
    obtain ⟨h1, h2⟩ := count_unregistered (h := h) s.log he
    rw [← hl] at h1 h2
    refine ⟨by rw [hi]; exact hr.home, ?_⟩
    rw [hi, h1, h2]
    exact hcount
  | install q x hreg hi hd es he hl =>
    obtain ⟨h1, h2⟩ := count_unregistered (h := h) s.log he
    have hq : x.reg.queue = q := by rw [hreg]
    constructor
    · refine hr.home_update hi (fun y hy => ?_)
      rcases List.mem_append.mp hy with hy | hy
      · exact hr.home q y hy
      · rw [List.mem_singleton.mp hy]
        exact hq
    · rw [hl, hi, List.countP_cons_of_neg (p := Event.uninstalls h) (by exact Bool.false_ne_true),
        List.countP_cons, h1, h2]
      show _ ≤ _ + if (x.reg == h) = true then 1 else 0
      by_cases e : h.queue = q
      · rw [e, Function.update_self, List.countP_append, List.countP_cons, List.countP_nil, ← e]
        omega
      · rw [Function.update_of_ne e]
        omega
  | uninstall q l₁ x l₂ h₀ hi hl =>
    have hmem : ∀ y ∈ l₁ ++ l₂, y ∈ s.installed q := by
      intro y hy
      rw [h₀]
      rcases List.mem_append.mp hy with hy | hy
      · exact List.mem_append_left _ hy
      · exact List.mem_append_right _ (List.mem_cons_of_mem _ hy)
    constructor
    · exact hr.home_update hi (fun y hy => hr.home q y (hmem y hy))
    · rw [hl, hi, List.countP_cons, List.countP_cons_of_neg (by exact Bool.false_ne_true)]
      show _ + (if (x.reg == h) = true then 1 else 0) + _ ≤ _
      by_cases e : h.queue = q
      · rw [e, h₀, List.countP_append, List.countP_cons] at hcount
        rw [e, Function.update_self, List.countP_append]
        omega
      · have hx : ¬ (x.reg == h) = true := by
          intro he
          apply e
          rw [← eq_of_beq he]
          refine hr.home q x ?_
          rw [h₀]
          exact List.mem_append_right _ List.mem_cons_self
        rw [Function.update_of_ne e, if_neg hx]
        exact hcount
  | drop q hi hl =>
    constructor
    · exact hr.home_update hi (fun y hy => nomatch hy)
    · rw [hl, hi, List.countP_cons_of_neg (by exact Bool.false_ne_true),
        List.countP_cons_of_neg (by exact Bool.false_ne_true)]
      by_cases e : h.queue = q
      · rw [e, Function.update_self, List.countP_nil]
        omega
      · rw [Function.update_of_ne e]
        exact hcount

theorem Registry.move (hr : Registry h s) (hm : Move D E s s') : Registry h s' := by
  obtain ⟨hhome, hcount⟩ := hr.lists hm
  refine ⟨hhome, ?_, hcount⟩
  intro q i hi r hin
  rcases hm.shift.snapshot hi with ⟨j, hj, -, hall⟩ | ⟨-, hnil⟩
  · rcases hall r hin with hin | ⟨x, hx, rfl⟩
    · exact hr.shown q j hj r hin
    · exact hr.home q x hx
  · rw [hnil] at hin
    cases hin

/-- the handler is not in the list of its queue -/
def Off (h : MessageHandler_t) (s : State) : Prop := ∀ x ∈ s.installed h.queue, x.reg ≠ h

/-- no loop of the queue has the handler in its snapshot -/
def Quiet (h : MessageHandler_t) (s : State) : Prop :=
  ∀ i ∈ s.infos h.queue, h ∉ i.runing_handler

theorem Off.move (hoff : Off h s) (hm : Move D E s s') (hreg : ∃ x, .install x ∈ s.log ∧ x.reg = h)
    (hone : s'.log.countP (Event.installs h) ≤ 1) : Off h s' := by
  intro x hx
  cases hm.handlers with
  | same hi =>
    rw [hi] at hx
    exact hoff x hx
  | install q y hreg' hi hd es he hl =>
    rw [hi] at hx
    replace hx := Elements.mem_update hx
    rcases hx with hx | ⟨rfl, hx⟩
    · exact hoff x hx
    · rcases List.mem_append.mp hx with hx | hx
      · exact hoff x hx
      · rw [List.mem_singleton.mp hx]
        intro he'
        obtain ⟨z, hz, hzr⟩ := hreg
        have hpos : 0 < s.log.countP (Event.installs h) :=
          List.countP_pos_iff.mpr ⟨.install z, hz, beq_iff_eq.mpr hzr⟩
        rw [hl, List.countP_cons_of_pos (by exact beq_iff_eq.mpr he'),
          (count_unregistered s.log he).1] at hone
        omega
  | uninstall q l₁ y l₂ h₀ hi =>
    rw [hi] at hx
    replace hx := Elements.mem_update hx
    rcases hx with hx | ⟨rfl, hx⟩
    · exact hoff x hx
    · apply hoff
      rw [h₀]
      rcases List.mem_append.mp hx with hx | hx
      · exact List.mem_append_left _ hx
      · exact List.mem_append_right _ (List.mem_cons_of_mem _ hx)
  | drop q hi =>
    rw [hi] at hx
    replace hx := Elements.mem_update hx
    rcases hx with hx | ⟨rfl, hx⟩
    · exact hoff x hx
    · cases hx

/-- a snapshot takes up no handler that is not in the list -/
theorem Quiet.move (hq : Quiet h s) (hoff : Off h s) (hm : Move D E s s') : Quiet h s' := by
  intro i hi hh
  rcases hm.shift.snapshot hi with ⟨j, hj, -, hall⟩ | ⟨-, hnil⟩
  · rcases hall h hh with hh | ⟨x, hx, hxr⟩
    · exact hq j hj hh
    · exact hoff x hx hxr
  · rw [hnil] at hh
    cases hh

/-! ## one thread that cancels and waits -/

/-- what is known while the thread is in its call, `log₀` is the history the call has begun in -/
structure Barred (h : MessageHandler_t) (t : Thread) (log₀ : List Event) (s : State) : Prop where
  zero : s.map 0 = none
  nesting : Nesting s
  registry : Registry h s
  known : ∃ x, .install x ∈ s.log ∧ x.reg = h
  off : Off h s
  asleep : ∀ c, s.ctl t = .blocked c false (.cancelAndWait h) → ∃ a, c = .runing a ∧ a < s.next ∧
    (∀ u, ∀ i ∈ s.infos u, i.runing_cond = a → u = h.queue) ∧
    ∀ i ∈ s.infos h.queue, h ∈ i.runing_handler → a ≤ i.runing_cond
  awake : ∀ c, s.ctl t = .blocked c true (.cancelAndWait h) → Quiet h s
  news : ∃ es, s.log = es ++ log₀ ∧ (.cancelWaited t h ∈ es → Quiet h s) ∧
    ∀ w x, Earlier (.cancelWaited t h) (.invoke w x) es → x.reg ≠ h

theorem Barred.woken {log₀ : List Event} (hb : Barred h t log₀ s) {c : Cond}
    (hk : s.ctl t = .blocked c false (.cancelAndWait h)) (hr : Rings D s s' c) : Quiet h s' := by
  obtain ⟨a, rfl, -, hhome, hmin⟩ := hb.asleep c hk
  cases hr with
  | clear u f rest front info hf₀ hpc hi₀ hf hi hp =>
    have hu : u = h.queue := by
      refine hhome u info ?_ rfl
      rw [hi₀]
      exact List.mem_append_right _ List.mem_cons_self
    subst hu
    have hasc := hb.nesting.ascending h.queue
    rw [hi₀, List.map_append, List.pairwise_append] at hasc
    intro i hmem hh
    rw [hi, Function.update_self] at hmem
    rcases List.mem_append.mp hmem with hmem | hmem
    · have hle := hmin i (by rw [hi₀]; exact List.mem_append_left _ hmem) hh
      have hlt : i.runing_cond < info.runing_cond :=
        hasc.2.2 _ (List.mem_map_of_mem hmem) _ List.mem_cons_self
      omega
    · rw [List.mem_singleton.mp hmem] at hh
      cases hh

/-- the entry the thread begins to wait for is the outermost one with the handler -/
theorem Nesting.outermost (hn : Nesting s) {v : RunLoopInfo} {q : MessageQueue_t}
    {p : RunLoopInfo → Bool} (hv : (s.infos q).find? p = some v) {i : RunLoopInfo}
    (hi : i ∈ s.infos q) (hp : p i = true) : v.runing_cond ≤ i.runing_cond := by
  obtain ⟨-, l₁, l₂, hl, -, hno⟩ := find_erase hv
  have hasc := hn.ascending q
  rw [hl, List.map_append, List.map_cons, List.pairwise_append] at hasc
  rw [hl] at hi
  rcases List.mem_append.mp hi with hi | hi
  · rw [hno i hi] at hp
    cases hp
  · rcases List.mem_cons.mp hi with rfl | hi
    · exact le_rfl
    · exact Nat.le_of_lt ((List.pairwise_cons.mp hasc.2.1).1 _ (List.mem_map_of_mem hi))

theorem Barred.sleep {log₀ : List Event} (hb : Barred h t log₀ s) (hm : Move D E s s') {c : Cond}
    (hk : s.ctl t = .blocked c false (.cancelAndWait h)) : ∃ a, c = .runing a ∧ a < s'.next ∧
    (∀ u, ∀ i ∈ s'.infos u, i.runing_cond = a → u = h.queue) ∧
    ∀ i ∈ s'.infos h.queue, h ∈ i.runing_handler → a ≤ i.runing_cond := by
  obtain ⟨a, hc, hlt, hhome, hmin⟩ := hb.asleep c hk
  refine ⟨a, hc, Nat.lt_of_lt_of_le hlt hm.entry.next_le, ?_, ?_⟩
  · intro u i hi ha
    rcases hm.shift.snapshot hi with ⟨j, hj, hcond, -⟩ | ⟨hnext, -⟩
    · exact hhome u j hj (hcond.trans ha)
    · omega
  · intro i hi hh
    rcases hm.shift.snapshot hi with ⟨j, hj, hcond, hall⟩ | ⟨-, hnil⟩
    · rw [← hcond]
      rcases hall h hh with hh | ⟨x, hx, hxr⟩
      · exact hmin j hj hh
      · exact absurd hxr (hb.off x hx)
    · rw [hnil] at hh
      cases hh

theorem Barred.invoked {log₀ es : List Event} (hb : Barred h t log₀ s) (hm : Move D E s s')
    (hq : Quiet h s) (hl : s'.log = es ++ s.log) {w : MessageWrapper} {x : HandlerWrapper}
    (hx : .invoke w x ∈ es) : x.reg ≠ h := by
  rintro rfl
  rcases hm.shift.news hl hx rfl with ⟨y, fit, he⟩ | ⟨u, f, hf, pc, es', hpc, he⟩
  · cases he
  · obtain ⟨i, hi, hmatch⟩ := hb.nesting.entry hf
    have hrest := hmatch.2
    generalize f.pc = old at hpc hrest
    cases hpc with
    | wake | handlerReturn | finishPeriod => cases he
    | idle => cases List.mem_singleton.mp he
    | finish => cases List.mem_singleton.mp he
    | invoke y d z l =>
      cases List.mem_singleton.mp he
      have hin : x.reg ∈ i.runing_handler := hrest.2.2 x List.mem_cons_self
      have hu : x.reg.queue = u := hb.registry.shown u i hi x.reg hin
      rw [← hu] at hi
      exact hq i hi hin

theorem Barred.back {log₀ : List Event} (hb : Barred h t log₀ s) (ht : t ≠ h.queue)
    (hc : Comes E s t (.cancelWaited t h)) (hE : ¬ E (.early t (.cancelAndWait h))) : Quiet h s := by
  cases hc with
  | unlocked _ hk hv =>
    by_cases h0 : h.queue = 0
    · intro i hi
      unfold infos at hi
      rw [h0, hb.zero] at hi
      cases hi
    · apply hv
      unfold currentThreadMessageQueue
      split
      · exact Ne.symm ht
      · exact h0
  | waited _ c b hk he =>
    rcases he with rfl | he
    · exact hb.awake c hk
    · exact absurd he hE

theorem Barred.move {log₀ : List Event} (hb : Barred h t log₀ s) (hm : Move D E s s')
    (ht : t ≠ h.queue) (hE : ¬ E (.early t (.cancelAndWait h)))
    (hone : s'.log.countP (Event.installs h) ≤ 1) : Barred h t log₀ s' := by
  obtain ⟨es, hes, hquiet, hcalls⟩ := hb.news
  obtain ⟨es', hl'⟩ := hm.entry.log
  have hl : s'.log = (es' ++ es) ++ log₀ := by rw [hl', hes, List.append_assoc]
  refine ⟨hm.map_zero hb.zero, hb.nesting.step hm.shift, hb.registry.move hm, ?_,
    hb.off.move hm hb.known hone, ?_, ?_, es' ++ es, hl, ?_, ?_⟩
  · obtain ⟨x, hx, hxr⟩ := hb.known
    refine ⟨x, ?_, hxr⟩
    rw [hl']
    exact List.mem_append_right _ hx
  · intro c hk
    rcases hm.asleep hk with hk₀ | ⟨hT, rfl⟩
    · exact hb.sleep hm hk₀
    · cases hT with
      | handler _ v hk₀ hv =>
        have hmem := List.mem_of_find?_eq_some hv
        refine ⟨v.runing_cond, rfl, hb.nesting.below _ v hmem, ?_, ?_⟩
        · exact fun u i hi ha => hb.nesting.apart u h.queue i hi v hmem ha
        · exact fun i hi hh => hb.nesting.outermost hv hi (List.contains_iff_mem.mpr hh)
  · intro c hk
    rcases hm.awake hk with hk₀ | ⟨hk₀, hr⟩
    · exact (hb.awake c hk₀).move hb.off hm
    · exact hb.woken hk₀ hr
  · intro hin
    refine Quiet.move ?_ hb.off hm
    rcases List.mem_append.mp hin with hin | hin
    · rcases hm.comes with ⟨es₁, hl₁, hno⟩ | ⟨u, e, hC, hs⟩
      · rw [grown hl' hl₁] at hin
        cases hno _ hin
      · have hl₁ : s'.log = [e] ++ s.log := by rw [hs]; rfl
        rw [grown hl' hl₁] at hin
        have he := List.mem_singleton.mp hin
        subst he
        have hu : u = t := by
          cases hC with
          | unlocked | waited => rfl
        subst hu
        exact hb.back ht hC hE
    · exact hquiet hin
  · intro w x he
    rcases earlier_append he with he | ⟨hinv, hin⟩
    · exact hcalls w x he
    · have hin : .cancelWaited t h ∈ es := by
        rcases List.mem_append.mp hin with hin | hin
        · rcases hm.comes with ⟨es₁, hl₁, hno⟩ | ⟨u, e, hC, hs⟩
          · rw [grown hl' hl₁] at hin
            cases hno _ hin
          · have hl₁ : s'.log = [e] ++ s.log := by rw [hs]; rfl
            rw [grown hl' hl₁] at hin hinv
            rw [← List.mem_singleton.mp hin] at hinv
            cases List.mem_singleton.mp hinv
        · exact hin
      exact hb.invoked hm (hquiet hin) hl' hinv

/-! ## the whole call -/

theorem Reachable.registry (hr : Reachable s) (h : MessageHandler_t) : Registry h s :=
  hr.keep (fun _ _ hu hm => hu.move hm) Registry.init

/-- a call of `UnInstallMessageHandler` takes the handler out of the list, if its id is given out
once -/
theorem unInstallMessageHandler_off (hreg : Registry h (s.unInstallMessageHandler h))
    (h0 : s.map 0 = none) (hseq : h.seq ≠ 0)
    (hone : (s.unInstallMessageHandler h).log.countP (Event.installs h) ≤ 1) :
    Off h (s.unInstallMessageHandler h) := by
  rcases unInstallMessageHandler_gone (s := s) h with hq | hs | hoff | ⟨x, hx, hxr⟩
  · intro x hx
    have hmap : (s.unInstallMessageHandler h).map 0 = none := by
      unfold unInstallMessageHandler
      rw [if_pos (Or.inl hq)]
      exact h0
    unfold installed at hx
    rw [hq, hmap] at hx
    cases hx
  · exact absurd hs hseq
  · exact hoff
  · have hpos : 0 < (s.unInstallMessageHandler h).log.countP (Event.uninstalls h) :=
      List.countP_pos_iff.mpr ⟨.uninstall x, hx, beq_iff_eq.mpr hxr⟩
    have hcount := hreg.count
    have hzero : ((s.unInstallMessageHandler h).installed h.queue).countP (·.reg == h) = 0 := by
      omega
    intro y hy he
    exact List.countP_eq_zero.mp hzero y hy (beq_iff_eq.mpr he)

theorem Barred.begin (hr : Reachable s) (hreg : ∃ x, .install x ∈ s.log ∧ x.reg = h)
    (hcall : step s (.cancelAndWait t h) = some s') (hseq : h.seq ≠ 0)
    (hone : s'.log.countP (Event.installs h) ≤ 1) : Barred h t s'.log s' := by
  have hr' : Reachable s' := hr.tail ⟨_, trivial, hcall⟩
  cases step_cases hcall with
  | cancelAndWait _ _ hg =>
    have hk : ((s.unInstallMessageHandler h).setCtl t (.uninstalled h)).ctl t = .uninstalled h :=
      setCtl_self _ _
    refine ⟨hr'.map_zero, hr'.nesting, hr'.registry h, ?_, ?_, ?_, ?_, [], rfl, ?_, ?_⟩
    · obtain ⟨x, hx, hxr⟩ := hreg
      refine ⟨x, ?_, hxr⟩
      show .install x ∈ (s.unInstallMessageHandler h).log
      unfold unInstallMessageHandler
      split
      · exact hx
      · split
        · exact hx
        · split
          · exact hx
          · exact List.mem_cons_of_mem _ hx
    · exact unInstallMessageHandler_off ⟨(hr'.registry h).home, (hr'.registry h).shown,
        (hr'.registry h).count⟩ hr.map_zero hseq hone
    · intro c hk'
      rw [hk] at hk'
      cases hk'
    · intro c hk'
      rw [hk] at hk'
      cases hk'
    · intro hin
      cases hin
    · intro w x he
      cases he.mem_left

theorem countP_move (hm : Move D E s s') (p : Event → Bool) : s.log.countP p ≤ s'.log.countP p := by
  obtain ⟨es, hl⟩ := hm.entry.log
  rw [hl, List.countP_append]
  exact Nat.le_add_left _ _

/-- **`CancelAndWait` is a barrier**: behind its return on another thread the handler runs in no
loop and is not called again, if its id is not 0 in `seq` and was given out once, and the thread
does not wake up without a notify. -/
theorem cancel_and_wait {s₀ s₁ : State} {es : List Event} (hr₀ : Reachable s₀)
    (hreg : ∃ x, .install x ∈ s₀.log ∧ x.reg = h) (ht : t ≠ h.queue)
    (hcall : step s₀ (.cancelAndWait t h) = some s₁)
    (hr : Runs.Run step (fun u a => ¬ a.early u t (.cancelAndWait h)) s₁ s)
    (hl : s.log = es ++ s₁.log) (hret : .cancelWaited t h ∈ es) (hseq : h.seq ≠ 0)
    (hone : s.log.countP (Event.installs h) ≤ 1) :
    (∀ u, ∀ f ∈ s.frames u, ¬ f.executes h) ∧
      ∀ w x, Earlier (.cancelWaited t h) (.invoke w x) es → x.reg ≠ h := by
  have hr₁ : Reachable s₁ := hr₀.tail ⟨_, trivial, hcall⟩
  have hbarred : s.log.countP (Event.installs h) ≤ 1 → Barred h t s₁.log s := by
    refine (keep_run (D := fun _ _ _ => True) (E := (· ≠ .early t (.cancelAndWait h)))
      (P := fun u => u.log.countP (Event.installs h) ≤ 1 → Barred h t s₁.log u) hr hr₁.map_zero
      (fun _ _ _ _ _ _ _ _ _ => trivial) (fun e => by cases e) (fun _ _ _ _ e => by cases e) ?_ ?_
      (Barred.begin hr₀ hreg hcall hseq)).1
    · rintro u a hc t' x hx e
      cases e
      exact hc hx
    · intro u v hu hm hv
      exact (hu ((countP_move hm _).trans hv)).move hm ht (fun hne => hne rfl) hv
  obtain ⟨es', hl', hquiet, hcalls⟩ := (hbarred hone).news
  rw [← grown hl hl'] at hquiet hcalls
  refine ⟨?_, hcalls⟩
  rintro u f hf ⟨w, d, x, l, hpc, rfl⟩
  obtain ⟨i, hi, hmatch⟩ := (hbarred hone).nesting.entry hf
  have hrest := hmatch.2
  rw [hpc] at hrest
  have hin : x.reg ∈ i.runing_handler := hrest.2.2 x List.mem_cons_self
  have hu : x.reg.queue = u := (hbarred hone).registry.shown u i hi x.reg hin
  rw [← hu] at hi
  exact hquiet hret i hi hin

def handlerCall : List Act :=
  [.call 7 (.createMessageQueueInfo 7), .call 7 (.installMessageHandler 1 false 7),
    .call 8 (.postMessage ⟨7, 2⟩ ⟨1, none⟩ ⟨.kImmediately, 0, 0⟩), .run 7 false, .enter 7,
    .loop 7 false, .callHandler 7]

def called : MessageWrapper := ⟨1, ⟨⟨7, 2⟩, 3⟩, ⟨1, none⟩, ⟨.kImmediately, 0, 0⟩, .kImmediately, 0⟩

/-- the thread 8 sleeps until the loop is back at its head -/
def handlerWait : List Act :=
  [.advance 8, .advance 8, .handlerReturn 7, .finish 7, .loop 7 false, .resume 8 true]

def handlerWaitLog : List Event := [.cancelWaited 8 ⟨7, 2⟩, .idle 7, .destroy called]

theorem cancel_and_wait_call : ∃ s₁ s : State, s.log = handlerWaitLog ++ s₁.log ∧
    (∀ u, ∀ f ∈ s.frames u, ¬ f.executes ⟨7, 2⟩) ∧
      ∀ w x, Earlier (.cancelWaited 8 ⟨7, 2⟩) (.invoke w x) handlerWaitLog → x.reg ≠ ⟨7, 2⟩ := by
  have hruns : ∃ s₀ s₁ s, Runs.exec step init handlerCall = some s₀ ∧
      (∃ x, .install x ∈ s₀.log ∧ x.reg = ⟨7, 2⟩) ∧ step s₀ (.cancelAndWait 8 ⟨7, 2⟩) = some s₁ ∧
      Runs.exec step s₁ handlerWait = some s ∧
      s.log = handlerWaitLog ++ s₁.log ∧
      s.log.countP (Event.installs ⟨7, 2⟩) ≤ 1 := by
    refine ⟨_, _, _, rfl, ⟨⟨⟨7, 2⟩, 1, false⟩, ?_, rfl⟩, rfl, rfl, rfl, ?_⟩
    · exact List.contains_iff_mem.mp rfl
    · decide
  obtain ⟨s₀, s₁, s, h₀, hreg, hcall, hrest, hl, hone⟩ := hruns
  have hcalm : ∀ a ∈ handlerWait, ∀ u, ¬ Act.early u 8 (.cancelAndWait ⟨7, 2⟩) a := by
    intro a ha u he
    unfold handlerWait at ha
    simp only [List.mem_cons, List.not_mem_nil, or_false] at ha
    rcases ha with rfl | rfl | rfl | rfl | rfl | rfl
    · cases he
    · cases he
    · cases he
    · cases he
    · cases he
    · cases he.2.1
  exact ⟨s₁, s, hl, cancel_and_wait (Runs.Run.of_exec h₀) hreg (by decide) hcall
    (Runs.Run.of_exec_all hrest hcalm) hl List.mem_cons_self (by decide) hone⟩

/-! ## the handler with the number 0 -/

def twoHandlers : List Act :=
  [.call 7 (.createMessageQueueInfo 7), .call 7 (.installMessageHandler 1 false 7)]

/-- the state behind `twoHandlers`, where they have the numbers `a` and `b` -/
def late (a b : UInt32) (log : List Event) : State :=
  { s_seq := b, next := 2
    map := Function.update blocked.map 7 (some {
      invoke_reg := ⟨7, a⟩, lst_handler := [⟨⟨7, a⟩, 0, false⟩, ⟨⟨7, b⟩, 1, false⟩] })
    log := .install ⟨⟨7, b⟩, 1, false⟩ :: .draw b :: .install ⟨⟨7, a⟩, 0, false⟩ :: .create 7 ::
      .draw a :: log }

theorem exec_twoHandlers (n : UInt32) (log : List Event) :
    Runs.exec step { blocked with s_seq := n, log := log } twoHandlers =
      some (late (n + 1) (n + 1 + 1) log) := by
  have htwice : ∀ c c' : Option MessageQueueContent,
      Function.update (Function.update blocked.map 7 c) 7 c' = Function.update blocked.map 7 c' := by
    intro c c'
    rw [Function.update_idem]
  unfold late
  rw [← htwice (some { invoke_reg := ⟨7, n + 1⟩, lst_handler := [⟨⟨7, n + 1⟩, 0, false⟩] })]
  rfl

/-- the rest of the call, and a message for the handler -/
def handlerAgain : List Act :=
  [.advance 1, .advance 1, .call 1 (.postMessage ⟨7, 0⟩ ⟨1, none⟩ ⟨.kImmediately, 0, 0⟩),
    .run 7 false, .enter 7, .loop 7 false, .callHandler 7]

def again : MessageWrapper × HandlerWrapper :=
  (⟨2, ⟨⟨7, 0⟩, 1⟩, ⟨1, none⟩, ⟨.kImmediately, 0, 0⟩, .kImmediately, 0⟩, ⟨⟨7, 0⟩, 1, false⟩)

def againLog : List Event :=
  [.invoke again.1 again.2, .pick again.1 [again.2], .enqueue again.1, .draw 1,
    .cancelWaited 1 ⟨7, 0⟩]

theorem exec_handlerAgain (log : List Event) : ∃ s₁ s,
    step (late 4294967295 0 log) (.cancelAndWait 1 ⟨7, 0⟩) = some s₁ ∧
      Runs.exec step s₁ handlerAgain = some s ∧ s.log = againLog ++ s₁.log :=
  ⟨_, _, rfl, rfl, rfl⟩

theorem cancel_and_wait_zero : ¬ ∀ h t s₀ s₁ s (es : List Event), Reachable s₀ →
    (∃ x, .install x ∈ s₀.log ∧ x.reg = h) → t ≠ h.queue →
    step s₀ (.cancelAndWait t h) = some s₁ →
    Runs.Run step (fun u a => ¬ a.early u t (.cancelAndWait h)) s₁ s → s.log = es ++ s₁.log →
    .cancelWaited t h ∈ es →
    (∀ u, ∀ f ∈ s.frames u, ¬ f.executes h) ∧
      ∀ w x, Earlier (.cancelWaited t h) (.invoke w x) es → x.reg ≠ h := by
  intro hall
  obtain ⟨log, hlog, -⟩ := exec_churning (2 ^ 32 - 4)
  have hseq : 2 + UInt32.ofNat (2 ^ 32 - 4) = 4294967294 := by decide
  have h1 : (4294967294 : UInt32) + 1 = 4294967295 := by decide
  have h2 : (4294967295 : UInt32) + 1 = 0 := by decide
  have hlate := exec_twoHandlers 4294967294 log
  rw [h1, h2] at hlate
  have hr₀ : Reachable (late 4294967295 0 log) := by
    refine Runs.Run.of_exec (l := churning (2 ^ 32 - 4) ++ twoHandlers) ?_
    rw [Runs.exec_append, hlog, hseq]
    exact hlate
  obtain ⟨s₁, s, hcall, hrest, hl⟩ := exec_handlerAgain log
  have hcalm : ∀ a ∈ handlerAgain, ∀ u, ¬ Act.early u 1 (.cancelAndWait ⟨7, 0⟩) a := by
    intro a ha u he
    unfold handlerAgain at ha
    simp only [List.mem_cons, List.not_mem_nil, or_false] at ha
    rcases ha with rfl | rfl | rfl | rfl | rfl | rfl | rfl
    all_goals cases he
  have hsafe := hall ⟨7, 0⟩ 1 _ s₁ s againLog hr₀ ⟨⟨⟨7, 0⟩, 1, false⟩, List.mem_cons_self, rfl⟩
    (by decide) hcall (Runs.Run.of_exec_all hrest hcalm) hl (List.contains_iff_mem.mp rfl)
  exact hsafe.2 again.1 again.2 ⟨[], _, rfl, List.contains_iff_mem.mp rfl⟩ rfl

end MessageQueue
