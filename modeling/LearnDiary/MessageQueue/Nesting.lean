import LearnDiary.MessageQueue.Loops

/-!
# Message queues: nested loops, step by step

A step leaves the activations of `Run` where they are, enters one, or lets one return; only the
return of the outermost one takes the queue away, with all its wrappers.

* `Call.exec_pieces`  what the calls under the lock are made of;
* `step_loops`    the three kinds of steps;
* `run_nesting`   every `Run` removes the entry it has pushed, the last one releases the queue.
-/

namespace MessageQueue
open State

variable {s s' : State} {t : Thread}

theorem setQueue_self (s : State) (q : MessageQueue_t) (c : Option MessageQueueContent) :
    (s.setQueue q c).map q = c := by
  show Function.update s.map q c q = c
  rw [Function.update_self]

theorem setQueue_of_ne (s : State) {q p : MessageQueue_t} (c : Option MessageQueueContent)
    (h : p ≠ q) : (s.setQueue q c).map p = s.map p := by
  show Function.update s.map q c p = s.map p
  rw [Function.update_of_ne h]

/-! ## steps that neither enter nor leave a loop -/

/-- the activations and the queues stay -/
def Steady (s s' : State) : Prop :=
  (∀ q, (s'.frames q).map (·.pushed) = (s.frames q).map (·.pushed)) ∧
    ∀ q, s.map q ≠ none → s'.map q ≠ none

theorem Steady.refl (s : State) : Steady s s := ⟨fun _ => rfl, fun _ h => h⟩

theorem Steady.trans {s'' : State} (h : Steady s s') (h' : Steady s' s'') : Steady s s'' :=
  ⟨fun q => (h'.1 q).trans (h.1 q), fun q hq => h'.2 q (h.2 q hq)⟩

theorem Steady.setQueue (s : State) (q : MessageQueue_t) (c : MessageQueueContent) :
    Steady s (s.setQueue q (some c)) := by
  refine ⟨fun _ => rfl, fun p hp => ?_⟩
  by_cases h : p = q
  · rw [h, setQueue_self]
    exact Option.some_ne_none c
  · rw [setQueue_of_ne s _ h]
    exact hp

theorem Steady.setFrames {f f' : Frame} {rest : List Frame} (hf : s.frames t = f :: rest)
    (hp : f'.pushed = f.pushed) : Steady s (s.setFrames t (f' :: rest)) := by
  refine ⟨fun q => ?_, fun _ h => h⟩
  show (Function.update s.frames t (f' :: rest) q).map _ = _
  by_cases h : q = t
  · subst h
    rw [Function.update_self, hf, List.map_cons, List.map_cons, hp]
  · rw [Function.update_of_ne h]

/-! ## the calls under the lock -/

/-- what the calls under the lock are made of -/
inductive Piece : State → State → Prop
  | draw (s : State) : Piece s s.makeSeq.2
  | record (s : State) (q : MessageQueue_t) (c : MessageQueueContent) :
      Piece s (s.setQueue q (some c))
  | push (s : State) (q : MessageQueue_t) (c : MessageQueueContent) (w : MessageWrapper) :
      Piece s (s.pushBack q c w)
  | erase (s : State) (q : MessageQueue_t) (c : MessageQueueContent) (lst : List MessageWrapper)
      (it : MessageWrapper) (why : Why) : Piece s (s.erase q c lst it why)
  | create (s : State) (q : MessageQueue_t) : Piece s (s.emit (.create q))
  | install (s : State) (h : HandlerWrapper) : Piece s (s.emit (.install h))
  | uninstall (s : State) (h : HandlerWrapper) : Piece s (s.emit (.uninstall h))

abbrev Pieces : State → State → Prop := Relation.ReflTransGen Piece

theorem Pieces.draw (s : State) : Pieces s s.makeSeq.2 := .single (.draw s)

theorem Pieces.eraseWhere (q : MessageQueue_t) (c : MessageQueueContent) (p : MessageWrapper → Bool)
    (why : Why) (kept rest : List MessageWrapper) (s : State) :
    Pieces s (s.eraseWhere q c p why kept rest) := by
  induction rest generalizing kept s with
  | nil => exact .refl
  | cons it rest ih =>
    unfold State.eraseWhere
    split
    · exact .head (.erase s q c (kept ++ rest) it why) (ih kept _)
    · exact ih (kept ++ [it]) s

theorem Call.exec_pieces (k : Call) {s s' : State} (hs : k.exec s = some s') : Pieces s s' := by
  cases k with
  | createMessageQueueInfo tid =>
    cases hs
    unfold State.createMessageQueueInfo
    split
    · exact .refl
    · exact (((Pieces.draw s).tail (.record _ tid _)).tail (.create _ tid)).tail (.install _ _)
  | installMessageHandler h r q =>
    cases hs
    unfold State.installMessageHandler
    split
    · exact .refl
    · exact ((Pieces.draw s).tail (.record _ q _)).tail (.install _ _)
  | unInstallMessageHandler h =>
    cases hs
    unfold State.unInstallMessageHandler
    split
    · exact .refl
    · split
      · exact .refl
      · split
        · exact .refl
        · exact (Relation.ReflTransGen.single (.record s h.queue _)).tail (.uninstall _ _)
  | postMessage h m g =>
    cases hs
    unfold State.postMessage
    split
    · exact .refl
    · exact (Pieces.draw s).tail (.push _ h.queue _ _)
  | singletonMessage r h m g =>
    cases hs
    unfold State.singletonMessage
    split
    · exact .refl
    · split
      · rename_i it _
        have herase := Piece.erase s h.queue
        split
        · dsimp only
          split
          · exact .tail (.single (herase _ _ it .replace)) (.push _ h.queue _ _)
          · exact .tail (.tail (.single (herase _ _ it .replace)) (.draw _)) (.push _ h.queue _ _)
        · exact .refl
      · exact (Pieces.draw s).tail (.push _ h.queue _ _)
  | broadcastMessage q m g =>
    cases hs
    unfold State.broadcastMessage
    split
    · exact .refl
    · exact (Pieces.draw s).tail (.push _ q _ _)
  | fasterMessage h m g =>
    obtain ⟨r, hr, rfl⟩ := Option.map_eq_some_iff.mp hs
    cases hc : s.map h.queue with
    | none =>
      rw [fasterMessage_absent m g hc] at hr
      cases hr
      exact .refl
    | some c =>
      cases hf : c.lst_message.find? (matching h m) with
      | none =>
        rw [fasterMessage_fresh g hc hf] at hr
        cases hr
        exact (Pieces.draw s).tail (.push _ h.queue _ _)
      | some it =>
        rw [fasterMessage_found g hc hf] at hr
        obtain ⟨kept, -, rfl⟩ := Option.map_eq_some_iff.mp hr
        cases kept with
        | true => exact Pieces.draw s
        | false =>
          exact ((Pieces.draw s).tail (.erase _ h.queue _ _ _ .replace)).tail (.push _ h.queue _ _)
  | cancelMessage i =>
    cases hs
    unfold State.cancelMessage
    split
    · exact .refl
    · split
      · exact .refl
      · split
        · exact .refl
        · exact .single (.erase s i.reg.queue _ _ _ .cancelPost)
  | cancelMessageOfHandler h =>
    cases hs
    unfold State.cancelMessageOfHandler
    split
    · exact .refl
    · split
      · exact .refl
      · exact Pieces.eraseWhere h.queue _ _ _ _ _ s
  | cancelMessageOfTitle h x =>
    cases hs
    unfold State.cancelMessageOfTitle
    split
    · exact .refl
    · split
      · exact .refl
      · exact Pieces.eraseWhere h.queue _ _ _ _ _ s
  | breakMessageQueueRunloop q =>
    cases hs
    unfold State.breakMessageQueueRunloop
    split
    · exact .refl
    · exact .single (.record s q _)

theorem Piece.steady (h : Piece s s') : Steady s s' := by
  cases h with
  | record q c => exact .setQueue s q c
  | push q c w => exact .setQueue s q { c with lst_message := c.lst_message ++ [w] }
  | erase q c lst it why => exact .setQueue s q { c with lst_message := lst }
  | draw | create | install | uninstall => exact .refl s

theorem Pieces.steady (h : Pieces s s') : Steady s s' := by
  induction h with
  | refl => exact .refl s
  | tail _ hp ih => exact ih.trans hp.steady

theorem Call.exec_steady (k : Call) {s s' : State} (hs : k.exec s = some s') : Steady s s' :=
  (k.exec_pieces hs).steady

/-! ## the return of a loop -/

/-- a sleeping thread is woken, or it stays as it is -/
def Wakes (s s' : State) : Prop :=
  ∀ u c k x, s.ctl u = .blocked c k x → ∃ k', s'.ctl u = .blocked c k' x ∧ (k = true → k' = true)

theorem Wakes.refl (s : State) : Wakes s s := fun _ _ k _ h => ⟨k, h, fun hk => hk⟩

theorem Wakes.trans {s'' : State} (h : Wakes s s') (h' : Wakes s' s'') : Wakes s s'' := by
  intro u c k x hk
  obtain ⟨k₁, hk₁, himp₁⟩ := h u c k x hk
  obtain ⟨k₂, hk₂, himp₂⟩ := h' u c k₁ x hk₁
  exact ⟨k₂, hk₂, fun hk => himp₂ (himp₁ hk)⟩

theorem Wakes.notifyAll (s : State) (c : Cond) : Wakes s (s.notifyAll c) := by
  intro u a k x hk
  refine ⟨k || a == c, ?_, fun h => by rw [h]; rfl⟩
  show (s.ctl u).notify c = _
  rw [hk]
  rfl

/-- the wrappers of the list are deleted, each wakes those who wait on it -/
structure Deletes (q : MessageQueue_t) (l : List MessageWrapper) (s s' : State) : Prop where
  frames : s'.frames = s.frames
  map : ∀ p, p ≠ q → s'.map p = s.map p
  log : s'.log = (l.map (Event.remove · .release)).reverse ++ s.log
  wakes : Wakes s s'
  woken : ∀ w ∈ l, ∀ u k x, s.ctl u = .blocked (.wait_end w.self) k x →
    s'.ctl u = .blocked (.wait_end w.self) true x

theorem eraseWhere_deletes (q : MessageQueue_t) (c : MessageQueueContent)
    (l : List MessageWrapper) (s : State) :
    Deletes q l s (s.eraseWhere q c (fun _ => true) .release [] l) := by
  induction l generalizing s with
  | nil => exact ⟨rfl, fun _ _ => rfl, rfl, .refl s, fun _ h => by cases h⟩
  | cons it rest ih =>
    let s₁ := s.erase q c rest it .release
    have h := ih s₁
    have hw : Wakes s s₁ := Wakes.notifyAll (s.setQueue q _) (.wait_end it.self)
    show Deletes q (it :: rest) s (s₁.eraseWhere q c (fun _ => true) .release [] rest)
    refine ⟨h.frames, ?_, ?_, hw.trans h.wakes, ?_⟩
    · intro p hp
      rw [h.map p hp]
      exact Function.update_of_ne hp _ _
    · rw [h.log, List.map_cons, List.reverse_cons, List.append_assoc]
      rfl
    · intro w hmem u k x hk
      rcases List.mem_cons.mp hmem with rfl | hmem
      · have h₁ : s₁.ctl u = .blocked (.wait_end w.self) true x := by
          show (s.ctl u).notify (.wait_end w.self) = _
          rw [hk]
          show Ctl.blocked _ (k || Cond.wait_end w.self == Cond.wait_end w.self) x = _
          rw [beq_self_eq_true, Bool.or_true]
        obtain ⟨k', hk', himp⟩ := h.wakes u _ _ _ h₁
        rw [hk', himp rfl]
      · obtain ⟨k', hk', -⟩ := hw u _ _ _ hk
        exact h.woken w hmem u k' x hk'

/-- the newest `Run` of the thread has returned -/
structure Returns (t : Thread) (f : Frame) (rest : List Frame) (s s' : State) : Prop where
  top : s.frames t = f :: rest
  frames : s'.frames = Function.update s.frames t rest
  map : ∀ p, p ≠ t → s.map p ≠ none → s'.map p ≠ none
  inner : rest ≠ [] → s'.map t ≠ none
  outer : rest = [] → s'.map t = none ∧
    s'.log = .release t :: ((s.pending t).map (Event.remove · .release)).reverse ++ s.log ∧
    ∀ w ∈ s.pending t, ∀ u k x, s.ctl u = .blocked (.wait_end w.self) k x →
      s'.ctl u = .blocked (.wait_end w.self) true x

theorem returned_blocked {f : Frame} (hk : s.ctl t = .free) {u : Thread} {c : Cond} {k : Bool}
    {x : Waiter} (hu : s.ctl u = .blocked c k x) : (s.returned t f).ctl u = .blocked c k x := by
  have hne : u ≠ t := by
    rintro rfl
    rw [hk] at hu
    cases hu
  unfold returned
  split
  · exact (Function.update_of_ne hne _ _).trans hu
  · exact hu

theorem leave_returns {f : Frame} {rest : List Frame} {c : MessageQueueContent}
    {front : List RunLoopInfo} {info : RunLoopInfo} (hk : s.ctl t = .free)
    (hf : s.frames t = f :: rest) (hc : s.map t = some c)
    (hi : c.lst_runloop_info = front ++ [info]) (hrest : front = [] ↔ rest = []) :
    Returns t f rest s (s.leave t f rest c) := by
  have hd : c.lst_runloop_info.dropLast = front := by rw [hi, List.dropLast_concat]
  let s₁ := ((s.setQueue t (some { c with lst_runloop_info := front })).setFrames t
    rest).returned t f
  have hframes : s₁.frames = Function.update s.frames t rest := returned_frames t f _
  have hmap : s₁.map = Function.update s.map t (some { c with lst_runloop_info := front }) :=
    returned_map t f _
  have hself : s₁.map t = some { c with lst_runloop_info := front } := by
    rw [hmap, Function.update_self]
  have hother : ∀ p, p ≠ t → s₁.map p = s.map p := by
    intro p hp
    rw [hmap, Function.update_of_ne hp]
  have hlog : s₁.log = s.log := returned_log t f _
  have hblocked : ∀ u a k x, s.ctl u = .blocked a k x → s₁.ctl u = .blocked a k x := by
    intro u a k x hu
    let s₀ := (s.setQueue t (some { c with lst_runloop_info := front })).setFrames t rest
    exact returned_blocked (s := s₀) hk hu
  unfold leave
  dsimp only
  rw [hd]
  show Returns t f rest s (if front = [] then s₁.releaseMessageQueueInfo t else s₁)
  by_cases hnil : front = []
  · have hdel := eraseWhere_deletes t { c with lst_runloop_info := front } c.lst_message s₁
    have hrel : s₁.releaseMessageQueueInfo t =
        ((s₁.eraseWhere t { c with lst_runloop_info := front } (fun _ => true) .release []
          c.lst_message).setQueue t none).emit (.release t) := by
      unfold releaseMessageQueueInfo
      rw [hself]
    rw [if_pos hnil, hrel]
    refine ⟨hf, hdel.frames.trans hframes, ?_, ?_, ?_⟩
    · intro p hp hpres
      show (State.setQueue t none _).map p ≠ none
      rw [setQueue_of_ne _ none hp, hdel.map p hp, hother p hp]
      exact hpres
    · exact fun hne => absurd (hrest.mp hnil) hne
    · intro _
      refine ⟨setQueue_self _ t none, ?_, ?_⟩
      · show Event.release t :: (s₁.eraseWhere t _ _ .release [] c.lst_message).log = _
        rw [hdel.log, hlog, pending_some hc]
        rfl
      · intro w hw u k x hu
        rw [pending_some hc] at hw
        exact hdel.woken w hw u k x (hblocked u _ k x hu)
  · rw [if_neg hnil]
    refine ⟨hf, hframes, ?_, ?_, ?_⟩
    · intro p hp hpres
      rw [hother p hp]
      exact hpres
    · intro _
      rw [hself]
      exact Option.some_ne_none _
    · exact fun he => absurd (hrest.mpr he) hnil

/-! ## every step -/

theorem loopHead_loops {brk : Bool} (hn : Nesting s) (hk : s.ctl t = .free)
    (h : s.loopHead t brk = some s') : Steady s s' ∨ ∃ f rest, Returns t f rest s s' := by
  obtain ⟨f, rest, c, front, info, hf, hpc, hc, hi, hturn⟩ := loopHead_cases h
  -- the record with the entry cleared
  let c₁ : MessageQueueContent := { c with lst_runloop_info := front ++ [info.clear] }
  let s₁ := (s.setQueue t (some c₁)).notifyAll (.runing info.runing_cond)
  have hsteady : Steady s s₁ := Steady.setQueue s t c₁
  have hk₁ : s₁.ctl t = .free := by
    show (s.ctl t).notify _ = _
    rw [hk]
    rfl
  have hc₁ : s₁.map t = some c₁ := setQueue_self s t (some c₁)
  cases hturn with
  | back hb =>
    have hnil : front = [] ↔ rest = [] := by
      have hlen := hn.length t
      rw [infos_some hc, hi, hf, List.length_append, List.length_cons] at hlen
      rw [← List.length_eq_zero_iff, ← List.length_eq_zero_iff]
      simp only [List.length_cons, List.length_nil] at hlen
      omega
    have hret := leave_returns hk₁ hf hc₁ rfl hnil
    refine Or.inr ⟨f, rest, hret.top, hret.frames, ?_, hret.inner, ?_⟩
    · exact fun p hp hpres => hret.map p hp (hsteady.2 p hpres)
    · intro he
      obtain ⟨h1, h2, h3⟩ := hret.outer he
      have hpend : s₁.pending t = s.pending t := by
        rw [pending_some hc₁, pending_some hc]
      rw [hpend] at h2 h3
      refine ⟨h1, h2, fun w hw u k x hu => ?_⟩
      exact h3 w hw u (k || _) x (by show (s.ctl u).notify _ = _; rw [hu]; rfl)
  | idle n hb hs => exact Or.inl (hsteady.trans (Steady.setFrames (s := s₁) hf rfl))
  | pick w d lst hb hs =>
    refine Or.inl (hsteady.trans ?_)
    exact (Steady.setQueue s₁ t _).trans (Steady.setFrames (s := s₁.setQueue t _) hf rfl)

/-- **The three kinds of steps.** -/
theorem step_loops {a : Act} (hn : Nesting s) (h : step s a = some s') :
    Steady s s' ∨ (∃ t f, s'.frames = Function.update s.frames t (f :: s.frames t) ∧
      ∀ q, s.map q ≠ none → s'.map q ≠ none) ∨ ∃ t f rest, Returns t f rest s s' := by
  cases step_cases h with
  | tick d => exact Or.inl (.refl s)
  | call t k s' hg hok hs => exact Or.inl (k.exec_steady hs)
  | waitMessage t m hg =>
    refine Or.inl ?_
    unfold waitMessage
    dsimp only
    repeat' split
    all_goals exact .refl s
  | lock t x c hg => exact Or.inl (.refl s)
  | pass t x hg => exact Or.inl (.refl s)
  | cancelAndWait t i hg =>
    have hs : Steady s (s.unInstallMessageHandler i) := (Call.unInstallMessageHandler i).exec_steady rfl
    exact Or.inl hs
  | uninstalled t i hk =>
    have hs : Steady s (s.cancelMessageOfHandler i) := (Call.cancelMessageOfHandler i).exec_steady rfl
    exact Or.inl hs
  | cancelled t i hk =>
    refine Or.inl ?_
    unfold cancelAndWaitEnd
    split
    · exact .refl s
    · exact .refl s
  | ran t m hk => exact Or.inl (.refl s)
  | woken t c m hk => exact Or.inl (.refl s)
  | awake t c hk => exact Or.inl (.refl s)
  | waited t c i hk => exact Or.inl (.refl s)
  | run t b hg => exact Or.inl (.refl s)
  | enter t b c hk hc =>
    refine Or.inr (Or.inl ⟨t, ⟨s.next, b, .head⟩, rfl, ?_⟩)
    exact (Steady.setQueue { s with next := s.next + 1 } t _).2
  | loop t brk s' hk h =>
    rcases loopHead_loops hn hk h with hs | ⟨f, rest, hr⟩
    · exact Or.inl hs
    · exact Or.inr (Or.inr ⟨t, f, rest, hr⟩)
  | wake t f rest n hk hf hpc => exact Or.inl (Steady.setFrames hf rfl)
  | callHandler t f rest w d x l hk hf hpc => exact Or.inl (Steady.setFrames hf rfl)
  | handlerReturn t f rest w d x l hk hf hpc => exact Or.inl (Steady.setFrames hf rfl)
  | finish t f rest w hk hf hpc => exact Or.inl (Steady.setFrames hf rfl)
  | finishPeriod t f rest w hk hf hpc => exact Or.inl (Steady.setFrames hf rfl)

/-! ## the life of a queue -/

variable {D : State → MessageWrapper → Why → Prop} {E : Guard → Prop}

/-- events that begin or end the life of a queue -/
def Event.life : Event → Bool
  | .create _ => true
  | .release _ => true
  | _ => false

/-- what a move does to the queues -/
inductive Life (s s' : State) : Prop
  | same (hm : ∀ q, (s'.map q).isSome = (s.map q).isSome) (es : List Event)
      (he : ∀ e ∈ es, e.life = false) (hl : s'.log = es ++ s.log)
  | create (q : MessageQueue_t) (c : MessageQueueContent) (h : HandlerWrapper) (v : UInt32)
      (hn : s.map q = none) (hm : s'.map = Function.update s.map q (some c))
      (hl : s'.log = .install h :: .create q :: .draw v :: s.log)
  | drop (q : MessageQueue_t) (c : MessageQueueContent) (hc : s.map q = some c)
      (hm : s'.map = Function.update s.map q none) (hl : s'.log = .release q :: s.log)

theorem update_isSome {q : MessageQueue_t} {c x : MessageQueueContent} (hc : s.map q = some c)
    (p : MessageQueue_t) : (Function.update s.map q (some x) p).isSome = (s.map p).isSome := by
  by_cases h : p = q
  · subst h
    rw [Function.update_self, hc]
    rfl
  · rw [Function.update_of_ne h]

theorem Life.none (hm : ∀ q, (s'.map q).isSome = (s.map q).isSome) (hl : s'.log = s.log) :
    Life s s' :=
  .same hm [] (fun _ h => by cases h) hl

theorem Life.one (hm : ∀ q, (s'.map q).isSome = (s.map q).isSome) (e : Event)
    (he : e.life = false) (hl : s'.log = e :: s.log) : Life s s' :=
  .same hm [e] (fun x hx => by rw [List.mem_singleton.mp hx]; exact he) hl

theorem Life.two (hm : ∀ q, (s'.map q).isSome = (s.map q).isSome) (e e' : Event)
    (he : e.life = false) (he' : e'.life = false) (hl : s'.log = e :: e' :: s.log) :
    Life s s' := by
  refine .same hm [e, e'] ?_ hl
  intro x hx
  rcases List.mem_cons.mp hx with rfl | hx
  · exact he
  · rw [List.mem_singleton.mp hx]
    exact he'

theorem Move.life (h : Move D E s s') : Life s s' := by
  cases h with
  | tick d => exact .none (fun _ => rfl) rfl
  | draw => exact .one (fun _ => rfl) (.draw (s.s_seq + 1)) rfl rfl
  | create q hq hn => exact .create q _ _ _ hn rfl rfl
  | install q c x hc hreg =>
    exact .two (update_isSome hc) (.install x) (.draw (s.s_seq + 1)) rfl rfl rfl
  | uninstall q c l₁ x l₂ hc hl => exact .one (update_isSome hc) (.uninstall x) rfl rfl
  | enqueue q c w hc hself hseq hq he =>
    exact .two (update_isSome hc) (.enqueue w) (.draw (s.s_seq + 1)) rfl rfl rfl
  | replace q c l₁ w l₂ w' hc hl hself hid hm hq hd =>
    refine .two ?_ (.enqueue w') (.remove w .replace) rfl rfl rfl
    intro p
    have hc' : (s.erase q c (l₁ ++ l₂) w .replace).map q =
        some { c with lst_message := l₁ ++ l₂ } := setQueue_self s q _
    exact (update_isSome hc' p).trans (update_isSome hc p)
  | delete q c l₁ w l₂ why hc hl hd hr => exact .one (update_isSome hc) (.remove w why) rfl rfl
  | setBreak q c hc => exact .none (update_isSome hc) rfl
  | enter t b c hk hc => exact .none (update_isSome hc) rfl
  | clear t c f rest front info hk hf hpc hc hi => exact .none (update_isSome hc) rfl
  | pop t c f rest front info hk hf hpc hc hi hb =>
    refine .none ?_ ?_
    · rw [returned_map]
      exact update_isSome hc
    · rw [returned_log]
      rfl
  | dropQueue t c hc hl hi => exact .drop t c hc rfl rfl
  | idle t c f rest n hk hf hpc hc hs => exact .one (fun _ => rfl) (.idle t) rfl rfl
  | pick t c f rest front info w d lst hk hf hpc hc hi hs =>
    exact .one (update_isSome hc) (.pick w _) rfl rfl
  | wake t f rest n hk hf hpc => exact .none (fun _ => rfl) rfl
  | invoke t f rest w d x l hk hf hpc => exact .one (fun _ => rfl) (.invoke w x) rfl rfl
  | handlerReturn t f rest w d x l hk hf hpc => exact .none (fun _ => rfl) rfl
  | finish t f rest w hk hf hpc => exact .one (fun _ => rfl) (.destroy w) rfl rfl
  | finishPeriod t f rest w hk hf hpc => exact .none (fun _ => rfl) rfl
  | turn t k hk => exact .none (fun _ => rfl) rfl
  | come t e he =>
    refine .one (fun _ => rfl) e ?_ rfl
    cases he with
    | gone | ran | woken | unlocked | waited => rfl

/-- 1 for a queue that is there -/
def State.present (s : State) (q : MessageQueue_t) : Nat := if (s.map q).isSome then 1 else 0

/-- a queue is released once for each time it is created, the last one apart -/
def Lives (s : State) : Prop :=
  ∀ q, s.log.count (.create q) = s.log.count (.release q) + s.present q

theorem count_life {es : List Event} (he : ∀ e ∈ es, e.life = false) (e : Event)
    (h : e.life = true) : es.count e = 0 := by
  refine List.count_eq_zero.mpr (fun hm => ?_)
  rw [he e hm] at h
  cases h

theorem Lives.step (h : Lives s) (hl : Life s s') : Lives s' := by
  intro q
  have hq := h q
  unfold State.present at hq ⊢
  cases hl with
  | same hm es he hl =>
    rw [hl, hm, List.count_append, List.count_append, count_life he _ rfl, count_life he _ rfl]
    omega
  | create p c x v hn hm hl =>
    rw [hl, hm]
    by_cases e : q = p
    · subst e
      rw [hn] at hq
      rw [Function.update_self]
      simp at hq ⊢
      omega
    · rw [Function.update_of_ne e]
      simp [Ne.symm e]
      exact hq
  | drop p c hc hm hl =>
    rw [hl, hm]
    by_cases e : q = p
    · subst e
      rw [hc] at hq
      rw [Function.update_self]
      simp at hq ⊢
      omega
    · rw [Function.update_of_ne e]
      simp [Ne.symm e]
      exact hq

theorem Reachable.lives (h : Reachable s) : Lives s :=
  h.keep (fun _ _ hu hm => hu.step hm.life) (fun _ => rfl)

/-! ## the discipline -/

/-- the entries of a queue, named by their conditions -/
def State.conds (s : State) (q : MessageQueue_t) : List Nat := (s.infos q).map (·.runing_cond)

theorem Reachable.step {a : Act} (h : Reachable s) (hs : step s a = some s') : Reachable s' :=
  Relation.ReflTransGen.tail h ⟨a, trivial, hs⟩

theorem conds_eq (h : Nesting s) (q : MessageQueue_t) {l : List Nat}
    (hl : (s.frames q).map (·.pushed) = l) : s.conds q = l.reverse := by
  unfold State.conds
  rw [h.conds q, hl]

/-- **Nesting of the run loops**: at any time a queue has as many entries as activations of `Run`,
those they have pushed; a step leaves them, adds the one of a `Run` that begins or takes away the
one of the `Run` that returns; the queue goes when its outermost `Run` returns and only then, once
for each time it was created, and all its wrappers are deleted and wake those who wait on them. -/
theorem run_nesting (h : Reachable s) :
    (∀ q, (s.infos q).length = (s.frames q).length ∧ (s.conds q).Nodup ∧
      s.log.count (.create q) = s.log.count (.release q) + s.present q) ∧
    ∀ a s', step s a = some s' → ∀ q,
      (((s'.frames q).map (·.pushed) = (s.frames q).map (·.pushed) ∧ s'.conds q = s.conds q) ∨
        (∃ f, s'.frames q = f :: s.frames q ∧ s'.conds q = s.conds q ++ [f.pushed]) ∨
        ∃ f, s.frames q = f :: s'.frames q ∧ s.conds q = s'.conds q ++ [f.pushed]) ∧
      (s.map q ≠ none ∧ s'.map q = none ↔ (∃ f, s.frames q = [f]) ∧ s'.frames q = []) ∧
      (s.map q ≠ none → s'.map q = none →
        s'.log = .release q :: ((s.pending q).map (Event.remove · .release)).reverse ++ s.log ∧
        ∀ w ∈ s.pending q, ∀ u k x, s.ctl u = .blocked (.wait_end w.self) k x →
          s'.ctl u = .blocked (.wait_end w.self) true x) := by
  have hn := Reachable.nesting h
  refine ⟨fun q => ⟨hn.length q, ?_, Reachable.lives h q⟩, ?_⟩
  · exact (hn.ascending q).imp (fun hab => Nat.ne_of_lt hab)
  · intro a s' hs q
    have hn' := Reachable.nesting (h.step hs)
    rcases step_loops hn hs with ⟨hf, hm⟩ | ⟨t, f, hf, hm⟩ | ⟨t, f, rest, hr⟩
    · have hgone : ¬ (s.map q ≠ none ∧ s'.map q = none) := fun hg => hm q hg.1 hg.2
      refine ⟨Or.inl ⟨hf q, ?_⟩, ?_, fun h1 h2 => absurd ⟨h1, h2⟩ hgone⟩
      · rw [conds_eq hn q rfl, conds_eq hn' q (hf q)]
      · refine ⟨fun hg => absurd hg hgone, ?_⟩
        rintro ⟨⟨f, hf1⟩, hf2⟩
        have := hf q
        rw [hf1, hf2] at this
        cases this
    · have hgone : ¬ (s.map q ≠ none ∧ s'.map q = none) := fun hg => hm q hg.1 hg.2
      refine ⟨?_, ⟨fun hg => absurd hg hgone, ?_⟩, fun h1 h2 => absurd ⟨h1, h2⟩ hgone⟩
      · by_cases e : q = t
        · subst e
          have hfq : s'.frames q = f :: s.frames q := by rw [hf, Function.update_self]
          refine Or.inr (Or.inl ⟨f, hfq, ?_⟩)
          rw [conds_eq hn q rfl, conds_eq hn' q (by rw [hfq, List.map_cons]), List.reverse_cons]
        · have hfq : s'.frames q = s.frames q := by rw [hf, Function.update_of_ne e]
          refine Or.inl ⟨by rw [hfq], ?_⟩
          rw [conds_eq hn q rfl, conds_eq hn' q (by rw [hfq])]
      · rintro ⟨⟨g, hf1⟩, hf2⟩
        rw [hf] at hf2
        by_cases e : q = t
        · subst e
          rw [Function.update_self] at hf2
          cases hf2
        · rw [Function.update_of_ne e, hf1] at hf2
          cases hf2
    · by_cases e : q = t
      · subst e
        have hfq : s'.frames q = rest := by rw [hr.frames, Function.update_self]
        refine ⟨Or.inr (Or.inr ⟨f, by rw [hfq]; exact hr.top, ?_⟩), ⟨?_, ?_⟩, ?_⟩
        · rw [conds_eq hn q (by rw [hr.top, List.map_cons]), conds_eq hn' q (by rw [hfq]),
            List.reverse_cons]
        · rintro ⟨-, hnone⟩
          have hrest : rest = [] := by
            by_contra hne
            exact hr.inner hne hnone
          exact ⟨⟨f, by rw [hr.top, hrest]⟩, by rw [hfq, hrest]⟩
        · rintro ⟨-, hf2⟩
          refine ⟨hn.present (by rw [hr.top]; exact List.cons_ne_nil f rest), ?_⟩
          exact (hr.outer (by rw [← hfq, hf2])).1
        · intro _ hnone
          have hrest : rest = [] := by
            by_contra hne
            exact hr.inner hne hnone
          exact (hr.outer hrest).2
      · have hfq : s'.frames q = s.frames q := by rw [hr.frames, Function.update_of_ne e]
        have hgone : ¬ (s.map q ≠ none ∧ s'.map q = none) := fun hg => hr.map q e hg.1 hg.2
        refine ⟨Or.inl ⟨by rw [hfq], ?_⟩, ⟨fun hg => absurd hg hgone, ?_⟩,
          fun h1 h2 => absurd ⟨h1, h2⟩ hgone⟩
        · rw [conds_eq hn q rfl, conds_eq hn' q (by rw [hfq])]
        · rintro ⟨⟨g, hf1⟩, hf2⟩
          rw [hfq, hf1] at hf2
          cases hf2

def nestedRun : List Act :=
  [.call 7 (.createMessageQueueInfo 7), .call 7 (.installMessageHandler 1 false 7),
    .call 7 (.postMessage ⟨7, 2⟩ ⟨1, none⟩ ⟨.kImmediately, 0, 0⟩), .run 7 false, .enter 7,
    .loop 7 false, .callHandler 7, .run 7 false, .enter 7]

theorem run_nesting_two : ∃ s, Reachable s ∧ (s.frames 7).length = 2 ∧ (s.infos 7).length = 2 := by
  obtain ⟨s, hr, hs⟩ := Runs.Run.of_test (f := fun s => (s.frames 7).length == 2)
    (show (Runs.exec step init nestedRun).any _ = true by decide)
  have hlen := eq_of_beq hs
  exact ⟨s, hr, hlen, ((run_nesting hr).1 7).1.trans hlen⟩

end MessageQueue
