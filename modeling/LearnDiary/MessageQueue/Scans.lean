import LearnDiary.MessageQueue.Nesting

/-!
# Message queues: the scans of a run

The head of a loop is the only place where a message is picked or the loop goes to sleep.  `Head`
says which of the three ways it takes there, with the list and the handlers it finds.

* `step_scans`   every other step scans nothing;
* `step_loud`    the events of a scan, and of a thread that comes back.
-/

namespace MessageQueue
open State

variable {E : Guard → Prop} {s s' : State} {t : Thread}

/-- events of a scan, and of a thread that comes back -/
def Event.loud : Event → Bool
  | .pick _ _ => true
  | .idle _ => true
  | .waited _ _ => true
  | .cancelWaited _ _ => true
  | _ => false

/-- no scan, and no thread comes back -/
def Silent (s s' : State) : Prop := ∃ es, s'.log = es ++ s.log ∧ ∀ e ∈ es, e.loud = false

theorem Silent.same (hl : s'.log = s.log) : Silent s s' := ⟨[], hl, fun _ h => by cases h⟩

theorem Silent.refl (s : State) : Silent s s := .same rfl

theorem Silent.trans {s'' : State} (h : Silent s s') (h' : Silent s' s'') : Silent s s'' := by
  obtain ⟨es, hl, he⟩ := h
  obtain ⟨es', hl', he'⟩ := h'
  refine ⟨es' ++ es, by rw [hl', hl, List.append_assoc], fun e hm => ?_⟩
  rcases List.mem_append.mp hm with hm | hm
  · exact he' e hm
  · exact he e hm

theorem Silent.emit {e : Event} (h : Silent s s') (he : e.loud = false) :
    Silent s (s'.emit e) := by
  obtain ⟨es, hl, hes⟩ := h
  refine ⟨e :: es, ?_, fun x hx => ?_⟩
  · show e :: s'.log = _
    rw [hl]
    rfl
  · rcases List.mem_cons.mp hx with rfl | hx
    · exact he
    · exact hes x hx

theorem Piece.silent (h : Piece s s') : Silent s s' := by
  cases h with
  | draw => exact (Silent.refl s).emit (e := .draw (s.s_seq + 1)) rfl
  | record => exact .refl s
  | push q c w => exact (Silent.refl s).emit (e := .enqueue w) rfl
  | erase q c lst it why => exact (Silent.refl s).emit (e := .remove it why) rfl
  | create q => exact (Silent.refl s).emit (e := .create q) rfl
  | install x => exact (Silent.refl s).emit (e := .install x) rfl
  | uninstall x => exact (Silent.refl s).emit (e := .uninstall x) rfl

theorem Pieces.silent (h : Pieces s s') : Silent s s' := by
  induction h with
  | refl => exact .refl s
  | tail _ hp ih => exact ih.trans hp.silent

theorem Call.exec_silent (k : Call) (hs : k.exec s = some s') : Silent s s' :=
  (k.exec_pieces hs).silent

/-! ## the head of a loop -/

def State.breaks (t : Thread) (brk : Bool) (s : State) : Bool :=
  match s.frames t, s.map t with
  | f :: _, some content => content.breakflag || f.breaker_func_.eval brk content
  | _, _ => true

inductive Head (t : Thread) (brk : Bool) (s s' : State) : Prop
  | back (hb : s.breaks t brk = true) (hs : Silent s s')
  | idle (n : Int64) (hb : s.breaks t brk = false)
      (hs : scan s.now tenMinutes (s.pending t) = .idle n) (hp : s'.pending = s.pending)
      (hl : s'.log = .idle t :: s.log)
  | pick (w : MessageWrapper) (d : Bool) (lst : List MessageWrapper) (hb : s.breaks t brk = false)
      (hs : scan s.now tenMinutes (s.pending t) = .found w d lst)
      (hp : s'.pending = Function.update s.pending t lst)
      (hl : s'.log = .pick w ((s.installed t).filter (fits w.postid.reg)) :: s.log)

theorem returned_silent (t : Thread) (f : Frame) (s : State) : Silent s (s.returned t f) :=
  .same (returned_log t f s)

theorem leave_silent (t : Thread) (f : Frame) (rest : List Frame) (c : MessageQueueContent)
    (s : State) : Silent s (s.leave t f rest c) := by
  let s₁ := (s.setQueue t (some { c with lst_runloop_info := c.lst_runloop_info.dropLast })).setFrames
    t rest
  have hret : Silent s (s₁.returned t f) := returned_silent t f s₁
  unfold leave
  dsimp only
  split
  · unfold releaseMessageQueueInfo
    split
    · exact hret
    · rename_i x _
      have hall := hret.trans
        (Pieces.eraseWhere t x (fun _ => true) .release [] x.lst_message _).silent
      exact hall.emit (e := .release t) rfl
  · exact hret

theorem loopHead_head {brk : Bool} (h : s.loopHead t brk = some s') : Head t brk s s' := by
  obtain ⟨f, rest, c, front, info, hf, hpc, hc, hi, hturn⟩ := loopHead_cases h
  -- the record with the entry cleared
  let c₁ : MessageQueueContent := { c with lst_runloop_info := front ++ [info.clear] }
  let s₁ := (s.setQueue t (some c₁)).notifyAll (.runing info.runing_cond)
  have hp₁ : s₁.pending = s.pending := setQueue_same s t (some c₁) (pending_some hc).symm
  have hbreaks : s.breaks t brk = (c₁.breakflag || f.breaker_func_.eval brk c₁) := by
    have heval : f.breaker_func_.eval brk c₁ = f.breaker_func_.eval brk c := by
      cases f.breaker_func_ with
      | none | user | gone => rfl
    unfold State.breaks
    rw [hf, hc, heval]
  cases hturn with
  | back hb => exact .back (hbreaks.trans hb) (leave_silent t f rest c₁ s₁)
  | idle n hb hs =>
    refine .idle n (hbreaks.trans hb) ?_ hp₁ rfl
    rw [pending_some hc]
    exact hs
  | pick w d lst hb hs =>
    refine .pick w d lst (hbreaks.trans hb) ?_ ?_ ?_
    · rw [pending_some hc]
      exact hs
    · rw [← hp₁]
      exact setQueue_pending s₁ t _
    · rw [installed_some hc]
      rfl

/-- **Only the head of a loop scans.** -/
theorem step_scans {a : Act} (h0 : s.map 0 = none) (h : step s a = some s')
    (hearly : ∀ t x, a.early s t x → E (.early t x)) :
    ((∀ t brk, a ≠ .loop t brk) ∧
      (Silent s s' ∨ ∃ t e, Comes E s t e ∧ s' = (s.setCtl t .free).emit e)) ∨
    ∃ t brk, a = .loop t brk ∧ Head t brk s s' := by
  cases step_cases h with
  | loop t brk s' hk h => exact Or.inr ⟨t, brk, rfl, loopHead_head h⟩
  | waitMessage t m hg =>
    refine Or.inl ⟨(fun _ _ e => by cases e), ?_⟩
    rcases waitMessage_cases (m := m) h0 hg with he | ⟨k, -, he⟩ | ⟨hC, he⟩
    · rw [he]
      exact Or.inl (.refl s)
    · rw [he]
      exact Or.inl (.refl s)
    · exact Or.inr ⟨t, _, hC, he⟩
  | cancelled t i hk =>
    refine Or.inl ⟨(fun _ _ e => by cases e), ?_⟩
    rcases cancelAndWaitEnd_cases hk with ⟨k, -, he⟩ | ⟨hC, he⟩
    · rw [he]
      exact Or.inl (.refl s)
    · exact Or.inr ⟨t, _, hC, he⟩
  | ran t m hk => exact Or.inl ⟨(fun _ _ e => by cases e), Or.inr ⟨t, _, .ran m hk, rfl⟩⟩
  | woken t b c m hk =>
    exact Or.inl ⟨(fun _ _ e => by cases e),
      Or.inr ⟨t, _, .woken m c b hk (resume_early hk hearly), rfl⟩⟩
  | waited t b c i hk =>
    exact Or.inl ⟨(fun _ _ e => by cases e),
      Or.inr ⟨t, _, .waited i c b hk (resume_early hk hearly), rfl⟩⟩
  | call t k s' hg hok hs => exact Or.inl ⟨(fun _ _ e => by cases e), Or.inl (k.exec_silent hs)⟩
  | cancelAndWait t i hg =>
    have hs : Silent s (s.unInstallMessageHandler i) := (Call.unInstallMessageHandler i).exec_silent rfl
    exact Or.inl ⟨(fun _ _ e => by cases e), Or.inl hs⟩
  | uninstalled t i hk =>
    have hs : Silent s (s.cancelMessageOfHandler i) := (Call.cancelMessageOfHandler i).exec_silent rfl
    exact Or.inl ⟨(fun _ _ e => by cases e), Or.inl hs⟩
  | callHandler t f rest w d x l hk hf hpc =>
    refine Or.inl ⟨(fun _ _ e => by cases e), Or.inl ?_⟩
    exact (Silent.refl s).emit (e := .invoke w x) rfl
  | finish t f rest w hk hf hpc =>
    refine Or.inl ⟨(fun _ _ e => by cases e), Or.inl ?_⟩
    exact (Silent.refl s).emit (e := .destroy w) rfl
  | tick | lock | pass | awake | run | enter | wake | handlerReturn | finishPeriod =>
    exact Or.inl ⟨(fun _ _ e => by cases e), Or.inl (.refl s)⟩

/-- where a loud event of a step comes from -/
theorem step_loud {a : Act} {e : Event} {es : List Event} (h0 : s.map 0 = none)
    (h : step s a = some s') (hearly : ∀ t x, a.early s t x → E (.early t x))
    (hl : s'.log = es ++ s.log) (he : e ∈ es) (hloud : e.loud = true) :
    (∃ t, Comes E s t e ∧ s' = (s.setCtl t .free).emit e) ∨
    (∃ t n, e = .idle t ∧ scan s.now tenMinutes (s.pending t) = .idle n ∧
      s'.pending = s.pending) ∨
    ∃ t w d lst, e = .pick w ((s.installed t).filter (fits w.postid.reg)) ∧
      scan s.now tenMinutes (s.pending t) = .found w d lst := by
  have hsplit : ∀ es', s'.log = es' ++ s.log → e ∈ es' := by
    intro es' hl'
    rw [← History.grown hl hl']
    exact he
  have hsilent : ¬ Silent s s' := by
    rintro ⟨es', hl', hes⟩
    rw [hes e (hsplit es' hl')] at hloud
    cases hloud
  rcases step_scans h0 h hearly with ⟨-, hs | ⟨t, e', hC, rfl⟩⟩ | ⟨t, brk, rfl, hhead⟩
  · exact absurd hs hsilent
  · rw [List.mem_singleton.mp (hsplit [e'] rfl)]
    exact Or.inl ⟨t, hC, rfl⟩
  · cases hhead with
    | back hb hs => exact absurd hs hsilent
    | idle n hb hs hp hl' =>
      exact Or.inr (Or.inl ⟨t, n, List.mem_singleton.mp (hsplit [_] hl'), hs, hp⟩)
    | pick w d lst hb hs hp hl' =>
      exact Or.inr (Or.inr ⟨t, w, d, lst, List.mem_singleton.mp (hsplit [_] hl'), hs⟩)

end MessageQueue
