import LearnDiary.MessageQueue.Loops

/-!
# Message queues: the numbers of handlers and posts

`__MakeSeq` counts in an `unsigned int`.  The values drawn are `1, 2, 3, …` modulo `2 ^ 32`, and
every handler installed and every message pending or running carries one of them.

* `Numbered`     the values drawn, in every reachable state;
* `fresh_iff`    a run draws only values that are fresh if and only if it draws fewer than `2 ^ 32`;
* `churn`        a run may draw as many values as it likes and change nothing else.

`Frame.message` is the wrapper a loop runs, `State.Uses` tells which numbers are in use.
-/

namespace MessageQueue
open State

def Event.drawn : Event → Option UInt32
  | .draw v => some v
  | _ => none

/-- the values drawn, the newest first -/
def State.draws (s : State) : List UInt32 := s.log.filterMap Event.drawn

def Frame.message (f : Frame) : Option MessageWrapper :=
  match f.pc with
  | .dispatch w _ _ _ => some w
  | _ => none

/-- a handler that is installed or a message that is pending or running carries the number -/
inductive State.Uses (s : State) (n : UInt32) : Prop
  | handler (q : MessageQueue_t) (h : HandlerWrapper) (hh : h ∈ s.installed q)
      (hn : h.reg.seq = n)
  | pending (q : MessageQueue_t) (w : MessageWrapper) (hw : w ∈ s.pending q)
      (hn : w.postid.seq = n)
  | running (t : Thread) (f : Frame) (w : MessageWrapper) (hf : f ∈ s.frames t)
      (hw : f.message = some w) (hn : w.postid.seq = n)

variable {D : State → MessageWrapper → Why → Prop} {E : Guard → Prop} {s s' : State}

/-! ## what a move draws -/

theorem draws_append {es : List Event} (hl : s'.log = es ++ s.log) :
    s'.draws = es.filterMap Event.drawn ++ s.draws := by
  unfold State.draws
  rw [hl, List.filterMap_append]

/-- a move draws nothing or the next value -/
def Draws (s s' : State) : Prop :=
  (s'.s_seq = s.s_seq ∧ s'.draws = s.draws) ∨
    (s'.s_seq = s.s_seq + 1 ∧ s'.draws = (s.s_seq + 1) :: s.draws)

theorem returned_seq (t : Thread) (f : Frame) (s : State) : (s.returned t f).s_seq = s.s_seq := by
  unfold returned
  split
  · rfl
  · rfl

theorem Move.draws (h : Move D E s s') : Draws s s' := by
  cases h with
  | draw | create | install | enqueue => exact Or.inr ⟨rfl, rfl⟩
  | pop t c f rest front info hk hf hpc hc hi hb =>
    refine Or.inl ⟨?_, ?_⟩
    · rw [returned_seq]
      rfl
    · unfold State.draws
      rw [returned_log]
      rfl
  | come t e he =>
    cases he with
    | gone | ran | woken | unlocked | waited => exact Or.inl ⟨rfl, rfl⟩
  | _ => exact Or.inl ⟨rfl, rfl⟩

/-! ## what a move does to the handlers -/

theorem setQueue_installed (s : State) (q : MessageQueue_t) (c : Option MessageQueueContent) :
    (s.setQueue q c).installed = Function.update s.installed q (c.elim [] (·.lst_handler)) := by
  funext p
  unfold installed setQueue
  dsimp only
  by_cases h : p = q
  · subst h
    rw [Function.update_self, Function.update_self]
  · rw [Function.update_of_ne h, Function.update_of_ne h]

theorem setQueue_installed_same {q : MessageQueue_t} {c x : MessageQueueContent}
    (hc : s.map q = some c) (hx : x.lst_handler = c.lst_handler) :
    (s.setQueue q (some x)).installed = s.installed := by
  have hcq : (some x).elim [] (·.lst_handler) = s.installed q := (installed_some hc).symm ▸ hx
  rw [setQueue_installed, hcq, Function.update_eq_self]

/-- events that say nothing about the handlers -/
def Event.unregistered : Event → Bool
  | .install _ => false
  | .uninstall _ => false
  | _ => true

/-- what a move does to the handlers -/
inductive Handlers (s s' : State) : Prop
  | same (hi : s'.installed = s.installed) (es : List Event)
      (he : ∀ e ∈ es, e.unregistered = true) (hl : s'.log = es ++ s.log)
  | install (q : MessageQueue_t) (h : HandlerWrapper) (hreg : h.reg = ⟨q, s.s_seq + 1⟩)
      (hi : s'.installed = Function.update s.installed q (s.installed q ++ [h]))
      (hd : s'.draws = (s.s_seq + 1) :: s.draws) (es : List Event)
      (he : ∀ e ∈ es, e.unregistered = true) (hl : s'.log = .install h :: (es ++ s.log))
  | uninstall (q : MessageQueue_t) (l₁ : List HandlerWrapper) (h : HandlerWrapper)
      (l₂ : List HandlerWrapper) (h₀ : s.installed q = l₁ ++ h :: l₂)
      (hi : s'.installed = Function.update s.installed q (l₁ ++ l₂))
      (hl : s'.log = .uninstall h :: s.log)
  | drop (q : MessageQueue_t) (hi : s'.installed = Function.update s.installed q [])
      (hl : s'.log = .release q :: s.log)

theorem Handlers.idle (hi : s'.installed = s.installed) (hl : s'.log = s.log) : Handlers s s' :=
  .same hi [] (fun _ h => by cases h) hl

theorem Handlers.event (e : Event) (he : e.unregistered = true) (hi : s'.installed = s.installed)
    (hl : s'.log = e :: s.log) : Handlers s s' :=
  .same hi [e] (fun x hx => by rw [List.mem_singleton.mp hx]; exact he) hl

theorem Handlers.events (e e' : Event) (he : e.unregistered = true) (he' : e'.unregistered = true)
    (hi : s'.installed = s.installed) (hl : s'.log = e :: e' :: s.log) : Handlers s s' := by
  refine .same hi [e, e'] ?_ hl
  intro x hx
  rcases List.mem_cons.mp hx with rfl | hx
  · exact he
  · rw [List.mem_singleton.mp hx]
    exact he'

theorem returned_installed (t : Thread) (f : Frame) (s : State) :
    (s.returned t f).installed = s.installed := by
  unfold returned
  split
  · rfl
  · rfl

theorem Move.handlers (h : Move D E s s') : Handlers s s' := by
  cases h with
  | create q hq hn =>
    refine .install q ⟨⟨q, s.s_seq + 1⟩, 0, false⟩ rfl ?_ rfl [.create q, .draw (s.s_seq + 1)] ?_ rfl
    · have hnil : s.installed q = [] := by
        unfold installed
        rw [hn]
        rfl
      rw [hnil]
      exact setQueue_installed s.makeSeq.2 q _
    · intro e he
      rcases List.mem_cons.mp he with rfl | he
      · rfl
      · rw [List.mem_singleton.mp he]
        rfl
  | install q c x hc hreg =>
    refine .install q x hreg ?_ rfl [.draw (s.s_seq + 1)] ?_ rfl
    · rw [installed_some hc]
      exact setQueue_installed s.makeSeq.2 q _
    · intro e he
      rw [List.mem_singleton.mp he]
      rfl
  | uninstall q c l₁ x l₂ hc hl =>
    exact .uninstall q l₁ x l₂ ((installed_some hc).trans hl) (setQueue_installed s q _) rfl
  | dropQueue t c hc hl hi => exact .drop t (setQueue_installed s t none) rfl
  | enqueue q c w hc =>
    exact .events (.enqueue w) (.draw (s.s_seq + 1)) rfl rfl
      (setQueue_installed_same (s := { s.makeSeq.2 with next := s.next + 1 }) hc rfl) rfl
  | replace q c l₁ w l₂ w' hc =>
    let s₁ := s.erase q c (l₁ ++ l₂) w .replace
    have hc₁ : { s₁ with next := s.next + 1 }.map q = some { c with lst_message := l₁ ++ l₂ } := by
      show Function.update s.map q _ q = _
      rw [Function.update_self]
    have h₁ := setQueue_installed_same (x := { c with lst_message := l₁ ++ l₂ ++ [w'] }) hc₁ rfl
    exact .events (.enqueue w') (.remove w .replace) rfl rfl
      (h₁.trans (setQueue_installed_same (s := s) hc rfl)) rfl
  | delete q c l₁ w l₂ why hc =>
    exact .event (.remove w why) rfl (setQueue_installed_same (s := s) hc rfl) rfl
  | setBreak q c hc => exact .idle (setQueue_installed_same (s := s) hc rfl) rfl
  | enter t b c hk hc =>
    exact .idle (setQueue_installed_same (s := { s with next := s.next + 1 }) hc rfl) rfl
  | clear t c f rest front info hk hf hpc hc =>
    exact .idle (setQueue_installed_same (s := s) hc rfl) rfl
  | pop t c f rest front info hk hf hpc hc =>
    refine .idle ?_ ?_
    · rw [returned_installed]
      exact setQueue_installed_same (s := s) hc rfl
    · rw [returned_log]
      rfl
  | pick t c f rest front info w d lst hk hf hpc hc =>
    exact .event (.pick w _) rfl (setQueue_installed_same (s := s) hc rfl) rfl
  | come t e he =>
    refine .event e ?_ rfl rfl
    cases he with
    | gone | ran | woken | unlocked | waited => rfl
  | draw => exact .event (.draw (s.s_seq + 1)) rfl rfl rfl
  | idle t => exact .event (.idle t) rfl rfl rfl
  | invoke t f rest w d x => exact .event (.invoke w x) rfl rfl rfl
  | finish t f rest w => exact .event (.destroy w) rfl rfl rfl
  | tick | wake | handlerReturn | finishPeriod | turn => exact .idle rfl rfl

/-! ## every number in use was drawn -/

theorem PcMove.message {f : Frame} {pc : Pc} {es : List Event} {w : MessageWrapper}
    (h : PcMove f.pc pc es) (hw : ({ f with pc := pc } : Frame).message = some w) :
    f.message = some w := by
  unfold Frame.message at hw ⊢
  generalize f.pc = old at h ⊢
  cases h with
  | idle | wake | finish | finishPeriod => cases hw
  | invoke | handlerReturn => exact hw

theorem Shift.running (h : Shift s s') {t : Thread} {f : Frame} {w : MessageWrapper}
    (hf : f ∈ s'.frames t) (hw : f.message = some w) :
    (∃ f₀ ∈ s.frames t, f₀.pushed = f.pushed ∧ f₀.message = some w) ∨
      ∃ it ∈ s.pending t, it.Same w ∧ ∃ fit, s'.log = .pick w fit :: s.log := by
  cases h with
  | still hf' | clear u g rest front info hf₀ hpc hi₀ hf' =>
    rw [hf'] at hf
    exact Or.inl ⟨f, hf, rfl, hw⟩
  | enter u b hk hf' =>
    rw [hf'] at hf
    replace hf := Elements.mem_update hf
    rcases hf with hf | ⟨rfl, hf⟩
    · exact Or.inl ⟨f, hf, rfl, hw⟩
    · rcases List.mem_cons.mp hf with rfl | hf
      · cases hw
      · exact Or.inl ⟨f, hf, rfl, hw⟩
  | pop u g rest front info hf₀ hpc hi₀ hf' =>
    rw [hf'] at hf
    replace hf := Elements.mem_update hf
    rcases hf with hf | ⟨rfl, hf⟩
    · exact Or.inl ⟨f, hf, rfl, hw⟩
    · refine Or.inl ⟨f, ?_, rfl, hw⟩
      rw [hf₀]
      exact List.mem_cons_of_mem _ hf
  | pick u g rest front info x d fit hf₀ hpc hi₀ hfit hd hx hf' hi hn hl =>
    rw [hf'] at hf
    replace hf := Elements.mem_update hf
    rcases hf with hf | ⟨rfl, hf⟩
    · exact Or.inl ⟨f, hf, rfl, hw⟩
    · rcases List.mem_cons.mp hf with rfl | hf
      · cases hw
        obtain ⟨it, hit, hsame⟩ := hx
        exact Or.inr ⟨it, hit, hsame, fit, hl⟩
      · refine Or.inl ⟨f, ?_, rfl, hw⟩
        rw [hf₀]
        exact List.mem_cons_of_mem _ hf
  | turn u g rest pc es hf₀ hpc hf' =>
    rw [hf'] at hf
    replace hf := Elements.mem_update hf
    rcases hf with hf | ⟨rfl, hf⟩
    · exact Or.inl ⟨f, hf, rfl, hw⟩
    · rcases List.mem_cons.mp hf with rfl | hf
      · refine Or.inl ⟨g, ?_, rfl, hpc.message hw⟩
        rw [hf₀]
        exact List.mem_cons_self
      · refine Or.inl ⟨f, ?_, rfl, hw⟩
        rw [hf₀]
        exact List.mem_cons_of_mem _ hf

theorem Shift.shown (hs : Shift s s') {q : MessageQueue_t} {i : RunLoopInfo}
    (hi : i ∈ s'.infos q) :
    (∃ j ∈ s.infos q, j.runing_message = i.runing_message ∧
      j.runing_message_id = i.runing_message_id) ∨
    (i.runing_message = none ∧ i.runing_message_id = KNullPost) ∨
    ∃ w fit it, s'.log = .pick w fit :: s.log ∧ i.runing_message = some w.self ∧
      i.runing_message_id = w.postid ∧ it ∈ s.pending q ∧ it.Same w := by
  have hold : i ∈ s.infos q → ∃ j ∈ s.infos q, j.runing_message = i.runing_message ∧
      j.runing_message_id = i.runing_message_id := fun hm => ⟨i, hm, rfl, rfl⟩
  -- only the entries of one queue change
  have hone : ∀ {t : Thread} {l : List RunLoopInfo}, s'.infos = Function.update s.infos t l →
      i ∈ s.infos q ∨ q = t ∧ i ∈ l := by
    intro t l hupd
    rw [hupd] at hi
    exact Elements.mem_update hi
  cases hs with
  | still hf hi' | turn t f rest pc es hf₀ hpc hf hi' =>
    rw [hi'] at hi
    exact Or.inl (hold hi)
  | enter t b hk hf hi' =>
    rcases hone hi' with hm | ⟨rfl, hm⟩
    · exact Or.inl (hold hm)
    · rcases List.mem_append.mp hm with hm | hm
      · exact Or.inl (hold hm)
      · rw [List.mem_singleton.mp hm]
        exact Or.inr (Or.inl ⟨rfl, rfl⟩)
  | clear t f rest front info hf₀ hpc hi₀ hf hi' =>
    rcases hone hi' with hm | ⟨rfl, hm⟩
    · exact Or.inl (hold hm)
    · rcases List.mem_append.mp hm with hm | hm
      · refine Or.inl (hold ?_)
        rw [hi₀]
        exact List.mem_append_left _ hm
      · rw [List.mem_singleton.mp hm]
        exact Or.inr (Or.inl ⟨rfl, rfl⟩)
  | pop t f rest front info hf₀ hpc hi₀ hf hi' =>
    rcases hone hi' with hm | ⟨rfl, hm⟩
    · exact Or.inl (hold hm)
    · refine Or.inl (hold ?_)
      rw [hi₀]
      exact List.mem_append_left _ hm
  | pick t f rest front info w d fit hf₀ hpc hi₀ hfit hd hw hf hi' hn hl =>
    rcases hone hi' with hm | ⟨rfl, hm⟩
    · exact Or.inl (hold hm)
    · rcases List.mem_append.mp hm with hm | hm
      · refine Or.inl (hold ?_)
        rw [hi₀]
        exact List.mem_append_left _ hm
      · obtain ⟨it, hit, hsame⟩ := hw
        rw [List.mem_singleton.mp hm]
        exact Or.inr (Or.inr ⟨w, fit, it, hl, rfl, rfl, hit, hsame⟩)

theorem Entry.pending (h : Entry D E s s') {q : MessageQueue_t} {w : MessageWrapper}
    (hw : w ∈ s'.pending q) :
    (∃ x ∈ s.pending q, x.postid = w.postid) ∨ s'.draws = w.postid.seq :: s.draws := by
  cases h with
  | quiet hp =>
    rw [hp] at hw
    exact Or.inl ⟨w, hw, rfl⟩
  | enqueue p x he hself hq hp hn hl =>
    rcases mem_lists hp hw with hw | ⟨rfl, hw⟩
    · exact Or.inl ⟨w, hw, rfl⟩
    · rcases List.mem_append.mp hw with hw | hw
      · exact Or.inl ⟨w, hw, rfl⟩
      · refine Or.inr ?_
        rw [List.mem_singleton.mp hw]
        unfold State.draws
        rw [hl]
        rfl
  | replace p l₁ x l₂ x' hl₀ hself hid hm hq hd hp hn hl =>
    rcases mem_lists hp hw with hw | ⟨rfl, hw⟩
    · exact Or.inl ⟨w, hw, rfl⟩
    · rcases List.mem_append.mp hw with hw | hw
      · exact Or.inl ⟨w, Entries.mem_rest hl₀ hw, rfl⟩
      · rw [List.mem_singleton.mp hw]
        exact Or.inl ⟨x, Entries.mem_mid hl₀, hid.symm⟩
  | delete p l₁ x l₂ why hl₀ hd hp | take p l₁ x l₂ fit hl₀ hno hone hp =>
    rcases mem_lists hp hw with hw | ⟨rfl, hw⟩
    · exact Or.inl ⟨w, hw, rfl⟩
    · exact Or.inl ⟨w, Entries.mem_rest hl₀ hw, rfl⟩
  | fire p l₁ x l₂ x' fit hl₀ hno hone hx' hp =>
    rcases mem_lists hp hw with hw | ⟨rfl, hw⟩
    · exact Or.inl ⟨w, hw, rfl⟩
    · rcases List.mem_append.mp hw with hw | hw
      · exact Or.inl ⟨w, Entries.mem_rest hl₀ (List.mem_append_left _ hw), rfl⟩
      · rcases List.mem_cons.mp hw with rfl | hw
        · exact Or.inl ⟨x, Entries.mem_mid hl₀, fixed_postid hx'.1⟩
        · exact Or.inl ⟨w, Entries.mem_rest hl₀ (List.mem_append_right _ hw), rfl⟩

/-- the values drawn are `1, 2, 3, …`, and every number in use is one of them -/
structure Numbered (s : State) : Prop where
  counted : s.s_seq = UInt32.ofNat s.draws.length
  drawn : s.draws = ((List.range s.draws.length).map (fun i => UInt32.ofNat (i + 1))).reverse
  known : ∀ n, s.Uses n → n ∈ s.draws

theorem Numbered.init : Numbered init where
  counted := rfl
  drawn := rfl
  known n h := by
    cases h with
    | handler q h hh | pending q w hh | running t f w hh => cases hh

theorem Draws.mono (h : Draws s s') {n : UInt32} (hn : n ∈ s.draws) : n ∈ s'.draws := by
  rcases h with ⟨-, hd⟩ | ⟨-, hd⟩
  · rw [hd]
    exact hn
  · rw [hd]
    exact List.mem_cons_of_mem _ hn

theorem Draws.nodup (h : Draws s s') (hn : s'.draws.Nodup) : s.draws.Nodup := by
  rcases h with ⟨-, hd⟩ | ⟨-, hd⟩
  · rw [← hd]
    exact hn
  · rw [hd] at hn
    exact hn.of_cons

theorem Numbered.move (h : Numbered s) (hm : Move D E s s') : Numbered s' := by
  have hdr := hm.draws
  refine ⟨?_, ?_, ?_⟩
  · rcases hdr with ⟨hs, hd⟩ | ⟨hs, hd⟩
    · rw [hs, hd]
      exact h.counted
    · rw [hs, hd, h.counted, List.length_cons, UInt32.ofNat_add]
      rfl
  · rcases hdr with ⟨hs, hd⟩ | ⟨hs, hd⟩
    · rw [hd]
      exact h.drawn
    · rw [hd, List.length_cons, List.range_succ, List.map_append, List.reverse_append, h.counted]
      rw [← h.drawn, List.map_cons, UInt32.ofNat_add]
      rfl
  · intro n hn
    cases hn with
    | handler q x hx he =>
      cases hm.handlers with
      | same hi =>
        rw [hi] at hx
        exact hdr.mono (h.known n (.handler q x hx he))
      | install p y hreg hi hd hl =>
        rw [hi] at hx
        replace hx := Elements.mem_update hx
        rcases hx with hx | ⟨rfl, hx⟩
        · exact hdr.mono (h.known n (.handler q x hx he))
        · rcases List.mem_append.mp hx with hx | hx
          · exact hdr.mono (h.known n (.handler q x hx he))
          · rw [List.mem_singleton.mp hx, hreg] at he
            rw [hd, ← he]
            exact List.mem_cons_self
      | uninstall p l₁ y l₂ h₀ hi =>
        rw [hi] at hx
        replace hx := Elements.mem_update hx
        rcases hx with hx | ⟨rfl, hx⟩
        · exact hdr.mono (h.known n (.handler q x hx he))
        · refine hdr.mono (h.known n (.handler q x ?_ he))
          rw [h₀]
          rcases List.mem_append.mp hx with hx | hx
          · exact List.mem_append_left _ hx
          · exact List.mem_append_right _ (List.mem_cons_of_mem _ hx)
      | drop p hi =>
        rw [hi] at hx
        replace hx := Elements.mem_update hx
        rcases hx with hx | ⟨rfl, hx⟩
        · exact hdr.mono (h.known n (.handler q x hx he))
        · cases hx
    | pending q w hw he =>
      rcases hm.entry.pending hw with ⟨x, hx, hid⟩ | hd
      · refine hdr.mono (h.known n (.pending q x hx ?_))
        rw [hid]
        exact he
      · rw [hd, ← he]
        exact List.mem_cons_self
    | running t f w hf hw he =>
      rcases hm.shift.running hf hw with ⟨f₀, hf₀, -, hw₀⟩ | ⟨it, hit, hsame, -⟩
      · exact hdr.mono (h.known n (.running t f₀ w hf₀ hw₀ he))
      · refine hdr.mono (h.known n (.pending t it hit ?_))
        rw [fixed_postid hsame.1]
        exact he

theorem Reachable.numbered (h : Reachable s) : Numbered s :=
  h.keep (fun _ _ hu hm => hu.move hm) Numbered.init

/-! ## fewer than `2 ^ 32` values are fresh -/

theorem ofNat_inj {i j : Nat} (hi : i < 2 ^ 32) (hj : j < 2 ^ 32)
    (h : UInt32.ofNat i = UInt32.ofNat j) : i = j := by
  have h' := congrArg UInt32.toNat h
  rw [UInt32.toNat_ofNat_of_lt' hi, UInt32.toNat_ofNat_of_lt' hj] at h'
  exact h'

theorem Numbered.nodup (h : Numbered s) (hlt : s.draws.length < 2 ^ 32) : s.draws.Nodup := by
  rw [h.drawn]
  refine List.pairwise_reverse.mpr (List.pairwise_map.mpr ?_)
  refine List.pairwise_lt_range.imp_of_mem ?_
  intro i j hi hj hij he
  have hi' := List.mem_range.mp hi
  have hj' := List.mem_range.mp hj
  have := ofNat_inj (by omega) (by omega) he
  omega

theorem Numbered.mem (h : Numbered s) {v : UInt32} :
    v ∈ s.draws ↔ ∃ i < s.draws.length, UInt32.ofNat (i + 1) = v := by
  constructor
  · intro hv
    rw [h.drawn, List.mem_reverse] at hv
    obtain ⟨i, hi, he⟩ := List.mem_map.mp hv
    exact ⟨i, List.mem_range.mp hi, he⟩
  · rintro ⟨i, hi, he⟩
    rw [h.drawn, List.mem_reverse]
    exact List.mem_map.mpr ⟨i, List.mem_range.mpr hi, he⟩

/-- zero is drawn with the `2 ^ 32`th value -/
theorem Numbered.zero_mem (h : Numbered s) : 0 ∈ s.draws ↔ 2 ^ 32 ≤ s.draws.length := by
  rw [h.mem]
  constructor
  · rintro ⟨i, hi, he⟩
    by_contra hlt
    have := ofNat_inj (i := i + 1) (j := 0) (by omega) (by omega) he
    omega
  · intro hle
    exact ⟨2 ^ 32 - 1, by omega, rfl⟩

/-- the values the step draws are not zero and not in use -/
def FreshStep (s s' : State) : Prop :=
  ∀ es, s'.draws = es ++ s.draws → ∀ v ∈ es, v ≠ 0 ∧ ¬ s.Uses v

theorem Reachable.draws (h : Reachable s) (hr : Runs.AnyRun step s s') :
    ∃ es, s'.draws = es ++ s.draws := by
  refine (keep_any (P := fun u => ∃ es, u.draws = es ++ s.draws) hr h.map_zero ?_ ⟨[], rfl⟩).1
  rintro u v ⟨es, he⟩ hm
  rcases hm.draws with ⟨-, hd⟩ | ⟨-, hd⟩
  · exact ⟨es, by rw [hd, he]⟩
  · exact ⟨(u.s_seq + 1) :: es, by rw [hd, he]; rfl⟩

/-- a run of fresh values alone is short: behind `2 ^ 32` values the counter is at zero -/
theorem draws_length_lt {l : List Act} (hl : Runs.exec step init l = some s)
    (hall : ∀ l₁ a l₂ u u', l = l₁ ++ a :: l₂ → Runs.exec step init l₁ = some u →
      step u a = some u' → FreshStep u u') : s.draws.length < 2 ^ 32 := by
  have hreach : ∀ {k u}, Runs.exec step init k = some u → Reachable u :=
    fun hk => Runs.Run.of_exec hk
  by_contra hge
  have hzero : 0 ∈ s.draws := (hreach hl).numbered.zero_mem.mpr (by omega)
  obtain ⟨l₁, a, l₂, u, u', he, hu, hs, hn, hz⟩ :=
    Runs.exec_split (P := fun u => (0 : UInt32) ∈ u.draws) hl (fun h => by cases h) hzero
  obtain ⟨es, hes⟩ := (hreach hu).draws (Runs.Run.one (C := fun _ _ => True) trivial hs)
  rw [hes] at hz
  rcases List.mem_append.mp hz with hz | hz
  · exact (hall l₁ a l₂ u u' he hu hs es hes 0 hz).1 rfl
  · exact hn hz

/-- **Freshness of ids**: all values that a run draws are fresh and not zero if and only if it draws
fewer than `2 ^ 32` of them. -/
theorem fresh_iff {l : List Act} (hl : Runs.exec step init l = some s) :
    (∀ l₁ a l₂ u u', l = l₁ ++ a :: l₂ → Runs.exec step init l₁ = some u → step u a = some u' →
      FreshStep u u') ↔ s.draws.length < 2 ^ 32 := by
  have hreach : ∀ {k u}, Runs.exec step init k = some u → Reachable u :=
    fun hk => Runs.Run.of_exec hk
  constructor
  · exact draws_length_lt hl
  · intro hlt l₁ a l₂ u u' he hu hs es hes v hv
    rw [he] at hl
    obtain ⟨t, t', ht, ht', hrest⟩ := Runs.exec_cons_some hl
    rw [hu] at ht
    cases ht
    rw [hs] at ht'
    cases ht'
    have hu' : Reachable u' := Relation.ReflTransGen.tail (hreach hu) ⟨a, trivial, hs⟩
    obtain ⟨es', hes'⟩ := hu'.draws (Runs.Run.of_exec hrest)
    have hle : u'.draws.length < 2 ^ 32 := by
      rw [hes', List.length_append] at hlt
      omega
    have hmem : v ∈ u'.draws := by
      rw [hes]
      exact List.mem_append_left _ hv
    constructor
    · rintro rfl
      have := hu'.numbered.zero_mem.mp hmem
      omega
    · intro huse
      have hnd := hu'.numbered.nodup hle
      rw [hes] at hnd
      exact (List.nodup_append.mp hnd).2.2 v hv v ((hreach hu).numbered.known v huse) rfl

/-- three values drawn, all of them fresh -/
theorem fresh_iff_three : ∃ l s, Runs.exec step init l = some s ∧ s.draws = [3, 2, 1] ∧
    ∀ l₁ a l₂ u u', l = l₁ ++ a :: l₂ → Runs.exec step init l₁ = some u → step u a = some u' →
      FreshStep u u' := by
  let l : List Act := [.call 1 (.createMessageQueueInfo 7), .call 1 (.installMessageHandler 1 true 7),
    .call 2 (.postMessage ⟨7, 2⟩ ⟨1, none⟩ ⟨.kImmediately, 0, 0⟩)]
  obtain ⟨s, hs⟩ := Option.isSome_iff_exists.mp
    (show (Runs.exec step init l).isSome = true by decide)
  have hd : (Runs.exec step init l).map State.draws = some [3, 2, 1] := by decide
  rw [hs] at hd
  have hd := Option.some.inj hd
  exact ⟨l, s, hs, hd, (fresh_iff hs).mpr (by rw [hd]; decide)⟩

/-! ## a run that draws and does nothing else -/

def later : MessageTiming := ⟨.kAfter, 1000, 0⟩

theorem faster_draws {h : MessageHandler_t} {m : Message} {c : MessageQueueContent}
    {it : MessageWrapper} (hc : s.map h.queue = some c)
    (hf : c.lst_message.find? (matching h m) = some it) (hi : it.immediate = true) :
    s.fasterMessage h m later = some (it.postid, s.makeSeq.2) := by
  have hspan : gettickspan s.now s.now = 0 := by
    unfold gettickspan
    split
    · rfl
    · rw [UInt64.sub_self]
      rfl
  have h0 : computerWaitTime s.now it = some 0 := by
    unfold computerWaitTime
    unfold MessageWrapper.immediate at hi
    rw [eq_of_beq hi]
    rfl
  have h1 : computerWaitTime s.now (s.newWrapper h m later 0) = some 1000 := by
    show (difference 1000 (gettickspan s.now s.now)).map _ = _
    rw [hspan]
    decide
  rw [fasterMessage_found later hc hf]
  unfold sooner
  rw [h0, h1]
  rfl

/-- **A run may draw as many values as it likes.** -/
theorem churn {t : Thread} {h : MessageHandler_t} {m : Message} {c : MessageQueueContent}
    {it : MessageWrapper} (hcall : s.canCall t = true) (hc : s.map h.queue = some c)
    (hf : c.lst_message.find? (matching h m) = some it) (hi : it.immediate = true) (n : Nat) :
    ∃ log, Runs.exec step s (List.replicate n (.call t (.fasterMessage h m later))) =
        some { s with s_seq := s.s_seq + UInt32.ofNat n, log := log } ∧
      (log.filterMap Event.drawn).length = s.draws.length + n := by
  induction n generalizing s with
  | zero =>
    refine ⟨s.log, ?_, rfl⟩
    show some s = some { s with s_seq := s.s_seq + 0, log := s.log }
    rw [UInt32.add_zero]
  | succ n ih =>
    obtain ⟨log, hlog, hlen⟩ := ih (s := s.makeSeq.2) hcall hc
    refine ⟨log, ?_, ?_⟩
    · have hstep : step s (.call t (.fasterMessage h m later)) = some s.makeSeq.2 := by
        unfold step
        dsimp only
        rw [hcall]
        show (s.fasterMessage h m later).map (·.2) = _
        rw [faster_draws hc hf hi]
        rfl
      rw [List.replicate_succ]
      show (step s _).bind _ = _
      rw [hstep]
      refine hlog.trans ?_
      show some { s with s_seq := s.s_seq + 1 + UInt32.ofNat n, log := log } = _
      rw [UInt32.ofNat_add, UInt32.add_comm (UInt32.ofNat n), UInt32.add_assoc]
      rfl
    · rw [hlen]
      show s.draws.length + 1 + n = _
      omega

/-- a message that waits in the queue 8, the loop of which never begins -/
def blocker : List Act :=
  [.call 1 (.createMessageQueueInfo 8),
    .call 1 (.postMessage ⟨8, 1⟩ ⟨1, none⟩ ⟨.kImmediately, 0, 0⟩)]

/-- a schedule that draws `n` values more behind `blocker` -/
def churning (n : Nat) : List Act :=
  blocker ++ List.replicate n (.call 1 (.fasterMessage ⟨8, 1⟩ ⟨1, none⟩ later))

/-- the state behind `blocker` -/
def blocked : State := (Runs.exec step init blocker).getD init

theorem exec_churning (n : Nat) : ∃ log, Runs.exec step init (churning n) =
    some { blocked with s_seq := 2 + UInt32.ofNat n, log := log } ∧
      (log.filterMap Event.drawn).length = 2 + n := by
  obtain ⟨log, hlog, hlen⟩ := churn (s := blocked) (t := 1) (h := ⟨8, 1⟩) (m := ⟨1, none⟩)
    rfl rfl rfl rfl n
  refine ⟨log, ?_, hlen⟩
  unfold churning
  rw [Runs.exec_append]
  exact hlog

theorem fresh_wraps : ¬ ∀ l s, Runs.exec step init l = some s → ∀ l₁ a l₂ u u', l = l₁ ++ a :: l₂ →
    Runs.exec step init l₁ = some u → step u a = some u' → FreshStep u u' := by
  intro hall
  obtain ⟨log, hlog, hlen⟩ := exec_churning (2 ^ 32)
  have hlt := draws_length_lt hlog (hall _ _ hlog)
  have hge : (log.filterMap Event.drawn).length < 2 ^ 32 := hlt
  omega

end MessageQueue
