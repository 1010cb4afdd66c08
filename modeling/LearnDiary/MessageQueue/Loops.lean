import LearnDiary.Lib.History
import LearnDiary.MessageQueue.Ledger

/-!
# Message queues: what a move does to the loops

Beside the lists of `Ledger` there are the activations of `Run` (`frames`) and the entries of
`lst_runloop_info` (`infos`).  A move leaves both alone, or it is one of the five things a loop
does: it enters, clears its entry, returns, picks a message, or goes on with its iteration.

* `Move.shift`        every move is one of these;
* `Nesting`           each activation has the entry it has pushed, in the same order;
* `Reachable.nesting` in every reachable state.
-/

namespace MessageQueue
open State History

/-- events that no loop brings about -/
def Event.outer : Event → Bool
  | .pick _ _ => false
  | .idle _ => false
  | .invoke _ _ => false
  | .destroy _ => false
  | _ => true

/-- a loop goes on with its iteration, with what happens meanwhile -/
inductive PcMove : Pc → Pc → List Event → Prop
  | idle (n : Int64) (q : MessageQueue_t) : PcMove .head (.wait n) [.idle q]
  | wake (n : Int64) : PcMove (.wait n) .head []
  | invoke (w : MessageWrapper) (d : Bool) (h : HandlerWrapper) (l : List HandlerWrapper) :
      PcMove (.dispatch w d none (h :: l)) (.dispatch w d (some h) l) [.invoke w h]
  | handlerReturn (w : MessageWrapper) (d : Bool) (h : HandlerWrapper) (l : List HandlerWrapper) :
      PcMove (.dispatch w d (some h) l) (.dispatch w d none l) []
  | finish (w : MessageWrapper) : PcMove (.dispatch w true none []) .head [.destroy w]
  | finishPeriod (w : MessageWrapper) : PcMove (.dispatch w false none []) .head []

/-- the entry of a loop that runs a message -/
def RunLoopInfo.pick (i : RunLoopInfo) (w : MessageWrapper) (fit_handler : List HandlerWrapper) :
    RunLoopInfo :=
  { i with
    runing_handler := fit_handler.map (·.reg)
    runing_message_id := w.postid
    runing_message := some w.self }

/-- what a move does to the loops -/
inductive Shift (s s' : State) : Prop
  | still (hf : s'.frames = s.frames) (hi : s'.infos = s.infos) (hn : s.next ≤ s'.next)
      (es : List Event) (he : ∀ e ∈ es, e.outer = true) (hl : s'.log = es ++ s.log)
  | enter (t : Thread) (b : Breaker) (hk : s.ctl t = .entering b)
      (hf : s'.frames = Function.update s.frames t (⟨s.next, b, .head⟩ :: s.frames t))
      (hi : s'.infos = Function.update s.infos t (s.infos t ++ [{ runing_cond := s.next }]))
      (hn : s'.next = s.next + 1) (hl : s'.log = s.log) (hk' : s'.ctl t = .free)
  | clear (t : Thread) (f : Frame) (rest : List Frame) (front : List RunLoopInfo)
      (info : RunLoopInfo) (hf₀ : s.frames t = f :: rest) (hpc : f.pc = .head)
      (hi₀ : s.infos t = front ++ [info]) (hf : s'.frames = s.frames)
      (hi : s'.infos = Function.update s.infos t (front ++ [info.clear]))
      (hn : s'.next = s.next) (hl : s'.log = s.log)
  | pop (t : Thread) (f : Frame) (rest : List Frame) (front : List RunLoopInfo)
      (info : RunLoopInfo) (hf₀ : s.frames t = f :: rest) (hpc : f.pc = .head)
      (hi₀ : s.infos t = front ++ [info]) (hf : s'.frames = Function.update s.frames t rest)
      (hi : s'.infos = Function.update s.infos t front) (hn : s'.next = s.next)
      (hl : s'.log = s.log) (hk : s.ctl t = .free)
  | pick (t : Thread) (f : Frame) (rest : List Frame) (front : List RunLoopInfo)
      (info : RunLoopInfo) (w : MessageWrapper) (d : Bool) (fit : List HandlerWrapper)
      (hf₀ : s.frames t = f :: rest) (hpc : f.pc = .head) (hi₀ : s.infos t = front ++ [info])
      (hfit : fit = (s.installed t).filter (fits w.postid.reg)) (hd : d = w.oneShot)
      (hw : ∃ it ∈ s.pending t, it.Same w)
      (hf : s'.frames = Function.update s.frames t ({ f with pc := .dispatch w d none fit } :: rest))
      (hi : s'.infos = Function.update s.infos t (front ++ [info.pick w fit]))
      (hn : s'.next = s.next) (hl : s'.log = .pick w fit :: s.log) (hk : s.ctl t = .free)
  | turn (t : Thread) (f : Frame) (rest : List Frame) (pc : Pc) (es : List Event)
      (hf₀ : s.frames t = f :: rest) (hpc : PcMove f.pc pc es)
      (hf : s'.frames = Function.update s.frames t ({ f with pc := pc } :: rest))
      (hi : s'.infos = s.infos) (hn : s'.next = s.next) (hl : s'.log = es ++ s.log)
      (hk : s.ctl t = .free)

/-! ## moves and loops -/

theorem returned_infos (t : Thread) (f : Frame) (s : State) :
    (s.returned t f).infos = s.infos := by
  unfold returned
  split
  · rfl
  · rfl

theorem returned_frames (t : Thread) (f : Frame) (s : State) :
    (s.returned t f).frames = s.frames := by
  unfold returned
  split
  · rfl
  · rfl

variable {D : State → MessageWrapper → Why → Prop} {E : Guard → Prop} {s s' : State}

theorem Shift.idle (hf : s'.frames = s.frames) (hi : s'.infos = s.infos) (hn : s.next ≤ s'.next)
    (hl : s'.log = s.log) : Shift s s' :=
  .still hf hi hn [] (fun _ h => by cases h) hl

theorem Shift.event (e : Event) (he : e.outer = true) (hf : s'.frames = s.frames)
    (hi : s'.infos = s.infos) (hn : s.next ≤ s'.next) (hl : s'.log = e :: s.log) : Shift s s' :=
  .still hf hi hn [e] (fun x hx => by rw [List.mem_singleton.mp hx]; exact he) hl

theorem Shift.events (e e' : Event) (he : e.outer = true) (he' : e'.outer = true)
    (hf : s'.frames = s.frames) (hi : s'.infos = s.infos) (hn : s.next ≤ s'.next)
    (hl : s'.log = e :: e' :: s.log) : Shift s s' := by
  refine .still hf hi hn [e, e'] ?_ hl
  intro x hx
  rcases List.mem_cons.mp hx with rfl | hx
  · exact he
  · rw [List.mem_singleton.mp hx]
    exact he'

/-- **A move leaves the loops alone or is a piece of one.** -/
theorem Move.shift (h : Move D E s s') : Shift s s' := by
  cases h with
  | tick d => exact .idle rfl rfl le_rfl rfl
  | draw => exact .event (.draw (s.s_seq + 1)) rfl rfl rfl le_rfl rfl
  | create q hq hn =>
    refine .still rfl ?_ le_rfl [.install _, .create q, .draw (s.s_seq + 1)] ?_ rfl
    · refine setQueue_infos_same s.makeSeq.2 q _ ?_
      show [] = (s.map q).elim [] _
      rw [hn]
      rfl
    · intro e he
      simp only [List.mem_cons, List.not_mem_nil, or_false] at he
      rcases he with rfl | rfl | rfl
      · rfl
      · rfl
      · rfl
  | install q c x hc hreg =>
    exact .events (.install x) (.draw (s.s_seq + 1)) rfl rfl rfl
      (setQueue_infos_same s.makeSeq.2 q _ (infos_some hc).symm) le_rfl rfl
  | uninstall q c l₁ x l₂ hc hl =>
    exact .event (.uninstall x) rfl rfl (setQueue_infos_same s q _ (infos_some hc).symm) le_rfl rfl
  | enqueue q c w hc hself hseq hq he =>
    exact .events (.enqueue w) (.draw (s.s_seq + 1)) rfl rfl rfl
      (setQueue_infos_same { s.makeSeq.2 with next := s.next + 1 } q _ (infos_some hc).symm)
      (Nat.le_succ _) rfl
  | replace q c l₁ w l₂ w' hc hl hself hid hm hq hd =>
    refine .events (.enqueue w') (.remove w .replace) rfl rfl rfl ?_ (Nat.le_succ _) rfl
    have h1 : (s.erase q c (l₁ ++ l₂) w .replace).infos = s.infos :=
      setQueue_infos_same s q _ (infos_some hc).symm
    refine (setQueue_infos_same { s.erase q c (l₁ ++ l₂) w .replace with next := s.next + 1 } q _
      ?_).trans h1
    exact (infos_some hc).symm.trans (congrFun h1 q).symm
  | delete q c l₁ w l₂ why hc hl hd hr =>
    exact .event (.remove w why) rfl rfl (setQueue_infos_same s q _ (infos_some hc).symm) le_rfl rfl
  | setBreak q c hc =>
    exact .idle rfl (setQueue_infos_same s q _ (infos_some hc).symm) le_rfl rfl
  | enter t b c hk hc =>
    refine .enter t b hk rfl ?_ rfl rfl ?_
    · rw [infos_some hc]
      exact setQueue_infos { s with next := s.next + 1 } t _
    · exact Function.update_self t Ctl.free s.ctl
  | clear t c f rest front info hk hf hpc hc hi =>
    exact .clear t f rest front info hf hpc ((infos_some hc).trans hi) rfl
      (setQueue_infos s t _) rfl rfl
  | pop t c f rest front info hk hf hpc hc hi hb =>
    refine .pop t f rest front info hf hpc ((infos_some hc).trans hi) ?_ ?_ ?_ ?_ hk
    · rw [returned_frames]
      rfl
    · rw [returned_infos]
      exact setQueue_infos s t _
    · rw [returned_next]
      rfl
    · rw [returned_log]
      rfl
  | dropQueue t c hc hl hi =>
    refine .event (.release t) rfl rfl (setQueue_infos_same s t _ ?_) le_rfl rfl
    rw [infos_some hc, hi]
    rfl
  | idle t c f rest n hk hf hpc hc hs =>
    refine .turn t f rest _ [.idle t] hf ?_ rfl rfl rfl rfl hk
    rw [hpc]
    exact .idle n t
  | pick t c f rest front info w d lst hk hf hpc hc hi hs =>
    obtain ⟨l₁, it, l₂, hl, -, hit, hw, hd, -⟩ := scan_found hs
    have hsame : it.Same w := hw ▸ same_rearm s.now it
    refine .pick t f rest front info w d _ hf hpc ((infos_some hc).trans hi) ?_ ?_ ?_ rfl ?_ rfl rfl hk
    · rw [installed_some hc]
    · rw [hd, fixed_oneShot hsame.1]
    · refine ⟨it, ?_, hsame⟩
      rw [pending_some hc, hl]
      exact List.mem_append_right _ List.mem_cons_self
    · exact setQueue_infos s t _
  | wake t f rest n hk hf hpc =>
    refine .turn t f rest _ [] hf ?_ rfl rfl rfl rfl hk
    rw [hpc]
    exact .wake n
  | invoke t f rest w d x l hk hf hpc =>
    refine .turn t f rest _ [.invoke w x] hf ?_ rfl rfl rfl rfl hk
    rw [hpc]
    exact .invoke w d x l
  | handlerReturn t f rest w d x l hk hf hpc =>
    refine .turn t f rest _ [] hf ?_ rfl rfl rfl rfl hk
    rw [hpc]
    exact .handlerReturn w d x l
  | finish t f rest w hk hf hpc =>
    refine .turn t f rest _ [.destroy w] hf ?_ rfl rfl rfl rfl hk
    rw [hpc]
    exact .finish w
  | finishPeriod t f rest w hk hf hpc =>
    refine .turn t f rest _ [] hf ?_ rfl rfl rfl rfl hk
    rw [hpc]
    exact .finishPeriod w
  | turn t k hk => exact .idle rfl rfl le_rfl rfl
  | come t e he =>
    refine .event e ?_ rfl rfl le_rfl rfl
    cases he with
    | gone | ran | woken | unlocked | waited => rfl

theorem Shift.news {es : List Event} {e : Event} (hs : Shift s s') (hl : s'.log = es ++ s.log)
    (he : e ∈ es) (ho : e.outer = false) : (∃ w fit, e = .pick w fit) ∨
      ∃ t, ∃ f ∈ s.frames t, ∃ pc es, PcMove f.pc pc es ∧ e ∈ es := by
  have hsplit : ∀ es', s'.log = es' ++ s.log → e ∈ es' := by
    intro es' hl'
    rw [← grown hl hl']
    exact he
  cases hs with
  | still hf hi hn es' hes hl' =>
    rw [hes e (hsplit es' hl')] at ho
    cases ho
  | enter t b hk hf hi hn hl' | clear t f rest front info hf₀ hpc hi₀ hf hi hn hl'
  | pop t f rest front info hf₀ hpc hi₀ hf hi hn hl' =>
    cases hsplit [] hl'
  | pick t f rest front info w d fit hf₀ hpc hi₀ hfit hd hw hf hi hn hl' =>
    exact Or.inl ⟨w, fit, List.mem_singleton.mp (hsplit [.pick w fit] hl')⟩
  | turn t f rest pc es' hf₀ hpc hf hi hn hl' =>
    refine Or.inr ⟨t, f, ?_, pc, es', hpc, hsplit es' hl'⟩
    rw [hf₀]
    exact List.mem_cons_self

/-! ## activations and entries -/

/-- the entry of an activation: the one it has pushed, with what it runs -/
def Frame.Matches (f : Frame) (i : RunLoopInfo) : Prop :=
  i.runing_cond = f.pushed ∧
  match f.pc with
  | .dispatch w _ running fit_handler =>
    i.runing_message_id = w.postid ∧ i.runing_message = some w.self ∧
      ∀ h ∈ running.toList ++ fit_handler, h.reg ∈ i.runing_handler
  | _ => True

theorem PcMove.matches {f : Frame} {pc : Pc} {es : List Event} {i : RunLoopInfo}
    (h : PcMove f.pc pc es) (hm : f.Matches i) : ({ f with pc := pc } : Frame).Matches i := by
  refine ⟨hm.1, ?_⟩
  have hm := hm.2
  generalize f.pc = old at h hm
  cases h with
  | idle | wake | finish | finishPeriod => trivial
  | invoke w d x l => exact hm
  | handlerReturn w d x l => exact ⟨hm.1, hm.2.1, fun h hh => hm.2.2 h (List.mem_cons_of_mem _ hh)⟩

structure Nesting (s : State) : Prop where
  matched : ∀ t, List.Forall₂ Frame.Matches (s.frames t) (s.infos t).reverse
  ascending : ∀ t, ((s.infos t).map (·.runing_cond)).Pairwise (· < ·)
  below : ∀ t, ∀ i ∈ s.infos t, i.runing_cond < s.next
  apart : ∀ t u, ∀ i ∈ s.infos t, ∀ j ∈ s.infos u, i.runing_cond = j.runing_cond → t = u

theorem Nesting.init : Nesting init where
  matched _ := List.Forall₂.nil
  ascending _ := List.Pairwise.nil
  below _ _ h := by cases h
  apart _ _ _ h := by cases h

section
variable {t : Thread} {f : Frame} {rest : List Frame} {front : List RunLoopInfo} {info : RunLoopInfo}

theorem Nesting.top (h : Nesting s) (hf : s.frames t = f :: rest) (hi : s.infos t = front ++ [info]) :
    f.Matches info ∧ List.Forall₂ Frame.Matches rest front.reverse := by
  have hm := h.matched t
  rw [hf, hi, List.reverse_concat] at hm
  exact List.forall₂_cons.mp hm

theorem Nesting.settle (h : Nesting s) {info' : RunLoopInfo} (f' : Frame)
    (hf₀ : s.frames t = f :: rest) (hi₀ : s.infos t = front ++ [info])
    (hf : s'.frames = Function.update s.frames t (f' :: rest))
    (hi : s'.infos = Function.update s.infos t (front ++ [info'])) (hn : s'.next = s.next)
    (hc : info'.runing_cond = info.runing_cond) (hm : f'.Matches info') : Nesting s' := by
  have hmem : ∀ u, ∀ i ∈ s'.infos u, ∃ j ∈ s.infos u, j.runing_cond = i.runing_cond := by
    intro u i hmem
    rw [hi] at hmem
    replace hmem := Elements.mem_update hmem
    rcases hmem with hmem | ⟨rfl, hmem⟩
    · exact ⟨i, hmem, rfl⟩
    · rw [hi₀]
      rcases List.mem_append.mp hmem with hmem | hmem
      · exact ⟨i, List.mem_append_left _ hmem, rfl⟩
      · rw [List.mem_singleton.mp hmem]
        exact ⟨info, List.mem_append_right _ (List.mem_singleton_self _), hc.symm⟩
  refine ⟨?_, ?_, ?_, ?_⟩
  · intro u
    rw [hf, hi]
    by_cases e : u = t
    · subst e
      rw [Function.update_self, Function.update_self, List.reverse_concat]
      exact List.Forall₂.cons hm (h.top hf₀ hi₀).2
    · rw [Function.update_of_ne e, Function.update_of_ne e]
      exact h.matched u
  · intro u
    rw [hi]
    by_cases e : u = t
    · subst e
      have hasc := h.ascending u
      rw [hi₀] at hasc
      rw [Function.update_self]
      have hmap : (front ++ [info']).map (·.runing_cond) = (front ++ [info]).map (·.runing_cond) := by
        rw [List.map_append, List.map_append, List.map_cons, List.map_cons, hc]
      rw [hmap]
      exact hasc
    · rw [Function.update_of_ne e]
      exact h.ascending u
  · intro u i hmi
    obtain ⟨j, hj, e⟩ := hmem u i hmi
    rw [hn, ← e]
    exact h.below u j hj
  · intro u v i hmi j hmj e
    obtain ⟨i₀, hi0, e1⟩ := hmem u i hmi
    obtain ⟨j₀, hj0, e2⟩ := hmem v j hmj
    exact h.apart u v i₀ hi0 j₀ hj0 (by rw [e1, e2, e])

end

/-- **The loops stay nested**: each activation keeps the entry it has pushed. -/
theorem Nesting.step (h : Nesting s) (hs : Shift s s') : Nesting s' := by
  cases hs with
  | still hf hi hn es he hl =>
    refine ⟨?_, ?_, ?_, ?_⟩
    · rw [hf, hi]
      exact h.matched
    · rw [hi]
      exact h.ascending
    · rw [hi]
      exact fun t i hm => lt_of_lt_of_le (h.below t i hm) hn
    · rw [hi]
      exact h.apart
  | enter t b hk hf hi hn hl =>
    have hmem : ∀ u, ∀ i ∈ s'.infos u, i ∈ s.infos u ∨ u = t ∧ i.runing_cond = s.next := by
      intro u i hm
      rw [hi] at hm
      replace hm := Elements.mem_update hm
      rcases hm with hm | ⟨rfl, hm⟩
      · exact Or.inl hm
      · rcases List.mem_append.mp hm with hm | hm
        · exact Or.inl hm
        · rw [List.mem_singleton.mp hm]
          exact Or.inr ⟨rfl, rfl⟩
    refine ⟨?_, ?_, ?_, ?_⟩
    · intro u
      rw [hf, hi]
      by_cases e : u = t
      · subst e
        rw [Function.update_self, Function.update_self, List.reverse_concat]
        exact List.Forall₂.cons ⟨rfl, trivial⟩ (h.matched u)
      · rw [Function.update_of_ne e, Function.update_of_ne e]
        exact h.matched u
    · intro u
      rw [hi]
      by_cases e : u = t
      · subst e
        rw [Function.update_self, List.map_append, List.pairwise_append]
        refine ⟨h.ascending u, List.pairwise_singleton _ _, ?_⟩
        intro a ha b hb
        obtain ⟨i, him, rfl⟩ := List.mem_map.mp ha
        rw [List.map_cons, List.map_nil, List.mem_singleton] at hb
        rw [hb]
        exact h.below u i him
      · rw [Function.update_of_ne e]
        exact h.ascending u
    · intro u i hm
      rw [hn]
      rcases hmem u i hm with hm | ⟨-, hm⟩
      · exact Nat.lt_succ_of_lt (h.below u i hm)
      · omega
    · intro u v i hu j hv e
      rcases hmem u i hu with hu | ⟨hu, hu'⟩
      · rcases hmem v j hv with hv | ⟨-, hv'⟩
        · exact h.apart u v i hu j hv e
        · have := h.below u i hu
          omega
      · rcases hmem v j hv with hv | ⟨hv, -⟩
        · have := h.below v j hv
          omega
        · rw [hu, hv]
  | clear t f rest front info hf₀ hpc hi₀ hf hi hn hl =>
    refine h.settle f hf₀ hi₀ ?_ hi hn rfl ⟨(h.top hf₀ hi₀).1.1, ?_⟩
    · rw [hf, ← hf₀, Function.update_eq_self]
    · rw [hpc]
      trivial
  | pop t f rest front info hf₀ hpc hi₀ hf hi hn hl =>
    have hsub : ∀ u, (s'.infos u).Sublist (s.infos u) := by
      intro u
      rw [hi]
      by_cases e : u = t
      · subst e
        rw [Function.update_self, hi₀]
        exact List.sublist_append_left front [info]
      · rw [Function.update_of_ne e]
    refine ⟨?_, ?_, ?_, ?_⟩
    · intro u
      rw [hf, hi]
      by_cases e : u = t
      · subst e
        rw [Function.update_self, Function.update_self]
        exact (h.top hf₀ hi₀).2
      · rw [Function.update_of_ne e, Function.update_of_ne e]
        exact h.matched u
    · exact fun u => (h.ascending u).sublist ((hsub u).map _)
    · intro u i hm
      rw [hn]
      exact h.below u i ((hsub u).subset hm)
    · intro u v i hu j hv
      exact h.apart u v i ((hsub u).subset hu) j ((hsub v).subset hv)
  | pick t f rest front info w d fit hf₀ hpc hi₀ hfit hd hw hf hi hn hl =>
    refine h.settle _ hf₀ hi₀ hf hi hn rfl ⟨(h.top hf₀ hi₀).1.1, rfl, rfl, ?_⟩
    intro x hx
    exact List.mem_map_of_mem hx
  | turn t f rest pc es hf₀ hpc hf hi hn hl =>
    refine ⟨?_, ?_, ?_, ?_⟩
    · intro u
      rw [hf, hi]
      by_cases e : u = t
      · subst e
        have hm := h.matched u
        rw [hf₀] at hm
        rw [Function.update_self]
        cases hi₁ : (s.infos u).reverse with
        | nil =>
          rw [hi₁] at hm
          cases hm
        | cons i l =>
          rw [hi₁] at hm
          obtain ⟨hhead, htail⟩ := List.forall₂_cons.mp hm
          exact List.Forall₂.cons (hpc.matches hhead) htail
      · rw [Function.update_of_ne e]
        exact h.matched u
    · rw [hi]
      exact h.ascending
    · rw [hi, hn]
      exact h.below
    · rw [hi]
      exact h.apart

theorem Reachable.nesting (h : Reachable s) : Nesting s :=
  h.keep (fun _ _ hu hm => hu.step hm.shift) Nesting.init

namespace Nesting

theorem conds (h : Nesting s) (t : Thread) :
    (s.infos t).map (·.runing_cond) = ((s.frames t).map (·.pushed)).reverse := by
  have hrev : ((s.infos t).map (·.runing_cond)).reverse = (s.frames t).map (·.pushed) := by
    rw [← List.map_reverse]
    have hm := h.matched t
    generalize s.frames t = l, (s.infos t).reverse = i at hm
    induction hm with
    | nil => rfl
    | cons hhead _ ih => rw [List.map_cons, List.map_cons, hhead.1, ih]
  rw [← hrev, List.reverse_reverse]

theorem length (h : Nesting s) (t : Thread) : (s.infos t).length = (s.frames t).length := by
  have := congrArg List.length (h.conds t)
  rw [List.length_map, List.length_reverse, List.length_map] at this
  exact this

theorem infos_nil (h : Nesting s) (t : Thread) : s.infos t = [] ↔ s.frames t = [] := by
  rw [← List.length_eq_zero_iff, h.length, List.length_eq_zero_iff]

/-- every activation has its entry -/
theorem entry (h : Nesting s) {t : Thread} {f : Frame} (hf : f ∈ s.frames t) :
    ∃ i ∈ s.infos t, f.Matches i := by
  have hm := h.matched t
  have hall : ∃ i ∈ (s.infos t).reverse, f.Matches i := by
    generalize s.frames t = l, (s.infos t).reverse = i at hf hm
    induction hm with
    | nil => cases hf
    | cons hhead _ ih =>
      rcases List.mem_cons.mp hf with rfl | hf
      · exact ⟨_, List.mem_cons_self, hhead⟩
      · obtain ⟨i, hi, hfi⟩ := ih hf
        exact ⟨i, List.mem_cons_of_mem _ hi, hfi⟩
  obtain ⟨i, hi, hfi⟩ := hall
  exact ⟨i, List.mem_reverse.mp hi, hfi⟩

theorem present (h : Nesting s) {t : Thread} (hf : s.frames t ≠ []) : s.map t ≠ none := by
  intro hn
  apply hf
  rw [← h.infos_nil]
  unfold infos
  rw [hn]
  rfl

end Nesting

end MessageQueue
