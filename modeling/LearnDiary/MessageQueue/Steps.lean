import LearnDiary.MessageQueue.Moves

/-!
# Message queues: a step is a sequence of moves

Call by call, the code of `Calls` and `System` is opened and cut into the moves of `Moves`.

* `step_cases`, `loopHead_cases`        what each action asks for, and what it leads to;
* `Call.exec_moves`, `loopHead_moves`   the calls under the lock and the head of the loop;
* `step_moves`                          every step;
* `keep_run`                            what every move keeps holds along a run.
-/

namespace MessageQueue
open State

variable {D : State → MessageWrapper → Why → Prop} {E : Guard → Prop}

/-! ## the steps -/

/-- what the actions ask for and lead to; the calls and the head of the loop are not opened -/
inductive Stepped (s : State) : Act → State → Prop
  | tick (d : UInt64) : Stepped s (.tick d) { s with now := s.now + d }
  | call (t : Thread) (k : Call) (s' : State) (hg : s.canCall t = true) (hok : k.ok = true)
      (h : k.exec s = some s') : Stepped s (.call t k) s'
  | waitMessage (t : Thread) (m : MessagePost_t) (hg : s.canCall t = true) :
      Stepped s (.waitMessage t m) (s.waitMessage t m)
  | lock (t : Thread) (x : Target) (c : Nat) (hg : s.canCall t = true) :
      Stepped s (.waitForRunningLockEnd t x)
        (s.setCtl t (.blocked (.runing c) false .waitForRunningLockEnd))
  | pass (t : Thread) (x : Target) (hg : s.canCall t = true) :
      Stepped s (.waitForRunningLockEnd t x) s
  | cancelAndWait (t : Thread) (i : MessageHandler_t) (hg : s.canCall t = true) :
      Stepped s (.cancelAndWait t i) ((s.unInstallMessageHandler i).setCtl t (.uninstalled i))
  | uninstalled (t : Thread) (i : MessageHandler_t) (hk : s.ctl t = .uninstalled i) :
      Stepped s (.advance t) ((s.cancelMessageOfHandler i).setCtl t (.cancelled i))
  | cancelled (t : Thread) (i : MessageHandler_t) (hk : s.ctl t = .cancelled i) :
      Stepped s (.advance t) (s.cancelAndWaitEnd t i)
  | ran (t : Thread) (m : MessagePost_t) (hk : s.ctl t = .ran m) :
      Stepped s (.advance t) ((s.setCtl t .free).emit (.waited t m))
  | woken (t : Thread) (b : Bool) (c : Cond) (m : MessagePost_t)
      (hk : s.ctl t = .blocked c b (.waitMessage m)) :
      Stepped s (.resume t b) ((s.setCtl t .free).emit (.waited t m))
  | awake (t : Thread) (b : Bool) (c : Cond)
      (hk : s.ctl t = .blocked c b .waitForRunningLockEnd) :
      Stepped s (.resume t b) (s.setCtl t .free)
  | waited (t : Thread) (b : Bool) (c : Cond) (i : MessageHandler_t)
      (hk : s.ctl t = .blocked c b (.cancelAndWait i)) :
      Stepped s (.resume t b) ((s.setCtl t .free).emit (.cancelWaited t i))
  | run (t : Thread) (b : Bool) (hg : s.canCall t = true) :
      Stepped s (.run t b) (s.setCtl t (.entering (if b then .user else .none)))
  | enter (t : Thread) (b : Breaker) (c : MessageQueueContent) (hk : s.ctl t = .entering b)
      (hc : s.map t = some c) :
      Stepped s (.enter t) ((({ s with next := s.next + 1 }.setQueue t (some { c with
        lst_runloop_info := c.lst_runloop_info ++ [({ runing_cond := s.next } : RunLoopInfo)] })
          ).setFrames t (⟨s.next, b, .head⟩ :: s.frames t)).setCtl t .free)
  | loop (t : Thread) (brk : Bool) (s' : State) (hk : s.ctl t = .free)
      (h : s.loopHead t brk = some s') : Stepped s (.loop t brk) s'
  | wake (t : Thread) (f : Frame) (rest : List Frame) (n : Int64) (hk : s.ctl t = .free)
      (hf : s.frames t = f :: rest) (hpc : f.pc = .wait n) :
      Stepped s (.wake t) (s.setFrames t ({ f with pc := .head } :: rest))
  | callHandler (t : Thread) (f : Frame) (rest : List Frame) (w : MessageWrapper) (d : Bool)
      (x : HandlerWrapper) (l : List HandlerWrapper) (hk : s.ctl t = .free)
      (hf : s.frames t = f :: rest) (hpc : f.pc = .dispatch w d none (x :: l)) :
      Stepped s (.callHandler t)
        ((s.setFrames t ({ f with pc := .dispatch w d (some x) l } :: rest)).emit (.invoke w x))
  | handlerReturn (t : Thread) (f : Frame) (rest : List Frame) (w : MessageWrapper) (d : Bool)
      (x : HandlerWrapper) (l : List HandlerWrapper) (hk : s.ctl t = .free)
      (hf : s.frames t = f :: rest) (hpc : f.pc = .dispatch w d (some x) l) :
      Stepped s (.handlerReturn t) (s.setFrames t ({ f with pc := .dispatch w d none l } :: rest))
  | finish (t : Thread) (f : Frame) (rest : List Frame) (w : MessageWrapper) (hk : s.ctl t = .free)
      (hf : s.frames t = f :: rest) (hpc : f.pc = .dispatch w true none []) :
      Stepped s (.finish t) (((s.setFrames t ({ f with pc := .head } :: rest)).notifyAll
        (.wait_end w.self)).emit (.destroy w))
  | finishPeriod (t : Thread) (f : Frame) (rest : List Frame) (w : MessageWrapper)
      (hk : s.ctl t = .free) (hf : s.frames t = f :: rest)
      (hpc : f.pc = .dispatch w false none []) :
      Stepped s (.finish t) (s.setFrames t ({ f with pc := .head } :: rest))

section
variable {s s' : State} {a : Act} {t : Thread}

theorem enter_cases (h : s.enter t = some s') : Stepped s (.enter t) s' := by
  unfold enter at h
  split at h
  · rename_i b c hk hc
    cases h
    exact .enter t b c hk hc
  · cases h

theorem wake_cases (hk : s.ctl t = .free) (h : s.wake t = some s') : Stepped s (.wake t) s' := by
  unfold wake at h
  split at h
  · rename_i f rest hf
    split at h
    · rename_i n hpc
      cases h
      exact .wake t f rest n hk hf hpc
    · cases h
  · cases h

theorem callHandler_cases (hk : s.ctl t = .free) (h : s.callHandler t = some s') :
    Stepped s (.callHandler t) s' := by
  unfold callHandler at h
  split at h
  · rename_i f rest hf
    split at h
    · rename_i w d x l hpc
      cases h
      exact .callHandler t f rest w d x l hk hf hpc
    · cases h
  · cases h

theorem handlerReturn_cases (h : s.handlerReturn t = some s') :
    Stepped s (.handlerReturn t) s' := by
  unfold handlerReturn at h
  split at h
  · rename_i f rest hf
    split at h
    · rename_i w d x l hpc
      split at h
      · rename_i hk
        cases h
        exact .handlerReturn t f rest w d x l hk hf hpc
      · cases h
    · cases h
  · cases h

theorem finish_cases (hk : s.ctl t = .free) (h : s.finish t = some s') :
    Stepped s (.finish t) s' := by
  unfold finish at h
  split at h
  · rename_i f rest hf
    split at h
    · rename_i w d hpc
      cases h
      cases d with
      | true => exact .finish t f rest w hk hf hpc
      | false => exact .finishPeriod t f rest w hk hf hpc
    · cases h
  · cases h

theorem resume_cases {notified : Bool} (h : s.resume t notified = some s') :
    Stepped s (.resume t notified) s' := by
  unfold resume at h
  split at h
  · rename_i c b x hk
    split at h
    · rename_i hb
      rw [hb] at hk
      cases x with
      | waitMessage m =>
        cases h
        exact .woken t _ c m hk
      | waitForRunningLockEnd =>
        cases h
        exact .awake t _ c hk
      | cancelAndWait i =>
        cases h
        exact .waited t _ c i hk
    · cases h
  · cases h

/-- **What a step can do.** -/
theorem step_cases (h : step s a = some s') : Stepped s a s' := by
  have hguard : ∀ {p : Prop} [Decidable p] {x : Option State},
      (if p then x else none) = some s' → p ∧ x = some s' :=
    fun hx => Option.ite_none_right_eq_some.mp hx
  unfold step at h
  cases a with
  | tick d =>
    cases h
    exact .tick d
  | call t k =>
    obtain ⟨hg, h⟩ := hguard h
    exact .call t k s' (Bool.and_eq_true_iff.mp hg).1 (Bool.and_eq_true_iff.mp hg).2 h
  | waitMessage t m =>
    obtain ⟨hg, h⟩ := hguard h
    cases h
    exact .waitMessage t m hg
  | waitForRunningLockEnd t x =>
    obtain ⟨hg, h⟩ := hguard h
    split at h
    · cases h
      exact .lock t x _ hg
    · cases h
      exact .pass t x hg
    · cases h
  | cancelAndWait t i =>
    obtain ⟨hg, h⟩ := hguard h
    cases h
    exact .cancelAndWait t i hg
  | advance t =>
    dsimp only at h
    split at h
    · rename_i i hk
      cases h
      exact .uninstalled t i hk
    · rename_i i hk
      cases h
      exact .cancelled t i hk
    · rename_i m hk
      cases h
      exact .ran t m hk
    · cases h
  | resume t notified => exact resume_cases h
  | run t b =>
    obtain ⟨hg, h⟩ := hguard h
    cases h
    exact .run t b (Bool.and_eq_true_iff.mp hg).1
  | enter t => exact enter_cases h
  | loop t brk =>
    obtain ⟨hk, h⟩ := hguard h
    exact .loop t brk s' hk h
  | wake t =>
    obtain ⟨hk, h⟩ := hguard h
    exact wake_cases hk h
  | callHandler t =>
    obtain ⟨hk, h⟩ := hguard h
    exact callHandler_cases hk h
  | handlerReturn t => exact handlerReturn_cases h
  | finish t =>
    obtain ⟨hk, h⟩ := hguard h
    exact finish_cases hk h

end

/-! ## the head of a loop -/

/-- the three ways at the head of a loop; `c` and `s` have the entry `info` of the loop cleared -/
inductive Turned (t : Thread) (brk : Bool) (f : Frame) (rest : List Frame)
    (c : MessageQueueContent) (front : List RunLoopInfo) (info : RunLoopInfo) (s : State) :
    State → Prop
  | back (hb : (c.breakflag || f.breaker_func_.eval brk c) = true) :
      Turned t brk f rest c front info s (s.leave t f rest c)
  | idle (n : Int64) (hb : (c.breakflag || f.breaker_func_.eval brk c) = false)
      (hs : scan s.now tenMinutes c.lst_message = .idle n) :
      Turned t brk f rest c front info s
        ((s.setFrames t ({ f with pc := .wait n } :: rest)).emit (.idle t))
  | pick (w : MessageWrapper) (d : Bool) (lst : List MessageWrapper)
      (hb : (c.breakflag || f.breaker_func_.eval brk c) = false)
      (hs : scan s.now tenMinutes c.lst_message = .found w d lst) :
      Turned t brk f rest c front info s (((s.setQueue t (some { c with
        lst_message := lst
        lst_runloop_info := front ++ [{ info with
          runing_handler := (c.lst_handler.filter (fits w.postid.reg)).map (·.reg)
          runing_message_id := w.postid
          runing_message := some w.self }] })).setFrames t
            ({ f with pc := .dispatch w d none (c.lst_handler.filter (fits w.postid.reg)) } ::
              rest)).emit (.pick w (c.lst_handler.filter (fits w.postid.reg))))

/-- **What the head of a loop does.** -/
theorem loopHead_cases {s s' : State} {t : Thread} {brk : Bool} (h : s.loopHead t brk = some s') :
    ∃ f rest c front info, s.frames t = f :: rest ∧ f.pc = .head ∧ s.map t = some c ∧
      c.lst_runloop_info = front ++ [info] ∧
      Turned t brk f rest { c with lst_runloop_info := front ++ [info.clear] } front info.clear
        ((s.setQueue t (some { c with lst_runloop_info := front ++ [info.clear] })).notifyAll
          (.runing info.runing_cond)) s' := by
  unfold loopHead at h
  split at h
  · rename_i f rest c hf hc
    split at h
    · rename_i info hpc hg
      have hi : c.lst_runloop_info = c.lst_runloop_info.dropLast ++ [info] :=
        (List.dropLast_append_getLast? info hg).symm
      refine ⟨f, rest, c, c.lst_runloop_info.dropLast, info, hf, hpc, hc, hi, ?_⟩
      dsimp only at h
      split at h
      · rename_i hb
        cases h
        exact .back hb
      · rename_i hb
        have hb := Bool.eq_false_iff.mpr hb
        split at h
        · rename_i n hs
          cases h
          exact .idle n hb hs
        · rename_i w d lst hs
          cases h
          exact .pick w d lst hb hs
        · cases h
    · cases h
  · cases h

/-! ## the calls as moves -/

section
variable {s s' : State}

theorem eraseWhere_moves {q : MessageQueue_t} {content : MessageQueueContent}
    {p : MessageWrapper → Bool} {why : Why} (kept rest : List MessageWrapper)
    (hc : s.map q = some { content with lst_message := kept ++ rest })
    (hr : why = .release → content.lst_runloop_info = [])
    (hD : why ≠ .release → ∀ w ∈ rest, p w = true → ∀ u : State, u.loops = s.loops → D u w why) :
    Moves D E s (s.eraseWhere q content p why kept rest) := by
  induction rest generalizing s kept with
  | nil => exact Relation.ReflTransGen.refl
  | cons it rest ih =>
    unfold eraseWhere
    by_cases hp : p it = true
    · rw [if_pos hp]
      refine Relation.ReflTransGen.head (Move.delete s q _ kept it rest why hc rfl
        (fun hw => hD hw it List.mem_cons_self hp s rfl) hr) ?_
      have hloops : (s.erase q content (kept ++ rest) it why).loops = s.loops := by
        refine congrArg (s.frames, ·) (congrArg₂ Prod.mk ?_ ?_)
        · exact setQueue_infos_same s q _ (infos_some hc).symm
        · funext t
          exact still_notify _ (s.ctl t)
      refine ih kept ?_
        (fun hw w hm hpw u hu => hD hw w (List.mem_cons_of_mem _ hm) hpw u (hu.trans hloops))
      exact Function.update_self q _ s.map
    · rw [if_neg hp]
      refine ih (kept ++ [it]) ?_
        (fun hw w hm hpw u hu => hD hw w (List.mem_cons_of_mem _ hm) hpw u hu)
      rw [hc, List.append_assoc]
      rfl

theorem find_erase {α : Type*} {p : α → Bool} {l : List α} {a : α} (h : l.find? p = some a) :
    p a = true ∧ ∃ l₁ l₂, l = l₁ ++ a :: l₂ ∧ l.eraseP p = l₁ ++ l₂ ∧ ∀ b ∈ l₁, p b = false := by
  induction l with
  | nil => cases h
  | cons b l ih =>
    by_cases hb : p b = true
    · rw [List.find?_cons_of_pos hb] at h
      cases h
      exact ⟨hb, [], l, rfl, List.eraseP_cons_of_pos hb, fun _ hx => by cases hx⟩
    · rw [List.find?_cons_of_neg hb] at h
      obtain ⟨ha, l₁, l₂, rfl, he, hn⟩ := ih h
      refine ⟨ha, b :: l₁, l₂, rfl, ?_, ?_⟩
      · rw [List.eraseP_cons_of_neg hb, he]
        rfl
      · intro x hx
        rcases List.mem_cons.mp hx with rfl | hx
        · exact Bool.eq_false_iff.mpr hb
        · exact hn x hx

theorem matching_iff {h : MessageHandler_t} {m : Message} {it : MessageWrapper} :
    matching h m it = true ↔ it.postid.reg = h ∧ it.message.title = m.title := by
  unfold matching Message.same
  rw [Bool.and_eq_true, beq_iff_eq, beq_iff_eq]

theorem Moves.one (h : Move D E s s') : Moves D E s s' := Relation.ReflTransGen.single h

theorem createMessageQueueInfo_moves {tid : Thread} (h : tid ≠ 0) :
    Moves D E s (s.createMessageQueueInfo tid).2 := by
  unfold createMessageQueueInfo
  cases hc : s.map tid with
  | none => exact Moves.one (Move.create s tid h hc)
  | some c => exact Relation.ReflTransGen.refl

theorem installMessageHandler_moves (h : Nat) (r : Bool) (q : MessageQueue_t) :
    Moves D E s (s.installMessageHandler h r q).2 := by
  unfold installMessageHandler
  cases hc : s.map q with
  | none => exact Relation.ReflTransGen.refl
  | some c => exact Moves.one (Move.install s q c ⟨⟨q, s.s_seq + 1⟩, h, r⟩ hc rfl)

theorem unInstallMessageHandler_moves (h : MessageHandler_t) :
    Moves D E s (s.unInstallMessageHandler h) := by
  unfold unInstallMessageHandler
  by_cases hz : h.queue = 0 ∨ h.seq = 0
  · rw [if_pos hz]
  · rw [if_neg hz]
    cases hc : s.map h.queue with
    | none => exact Relation.ReflTransGen.refl
    | some c =>
      dsimp only
      cases hf : c.lst_handler.find? (fun it => h == it.reg) with
      | none => exact Relation.ReflTransGen.refl
      | some it =>
        obtain ⟨-, l₁, l₂, hl, he, -⟩ := find_erase hf
        rw [he]
        exact Moves.one (Move.uninstall s h.queue c l₁ it l₂ hc hl)

theorem post_moves {q : MessageQueue_t} {c : MessageQueueContent} {h : MessageHandler_t}
    (m : Message) (g : MessageTiming) (he : E .post) (hc : s.map q = some c) (hq : h.queue = q) :
    Moves D E s (s.makeSeq.2.pushBack q c (s.makeSeq.2.newWrapper h m g s.makeSeq.1)) :=
  Moves.one (Move.enqueue s q c _ hc rfl rfl hq he)

theorem postMessage_moves (he : E .post) (h : MessageHandler_t) (m : Message) (g : MessageTiming) :
    Moves D E s (s.postMessage h m g).2 := by
  unfold postMessage
  cases hc : s.map h.queue with
  | none => exact Relation.ReflTransGen.refl
  | some c => exact post_moves m g he hc rfl

theorem broadcastMessage_moves (he : E .post) (q : MessageQueue_t) (m : Message) (g : MessageTiming) :
    Moves D E s (s.broadcastMessage q m g).2 := by
  unfold broadcastMessage
  cases hc : s.map q with
  | none => exact Relation.ReflTransGen.refl
  | some c => exact post_moves m g he hc rfl

theorem singletonMessage_moves (he : E .post) (r : Bool) (h : MessageHandler_t) (m : Message) (g : MessageTiming)
    (hD : ∀ w ∈ (Call.singletonMessage r h m g).victims s, D s w .replace) :
    Moves D E s (s.singletonMessage r h m g).2 := by
  unfold singletonMessage
  cases hc : s.map h.queue with
  | none => exact Relation.ReflTransGen.refl
  | some c =>
    dsimp only
    cases hf : c.lst_message.find? (matching h m) with
    | none => exact post_moves m g he hc rfl
    | some it =>
      cases r with
      | false => exact Relation.ReflTransGen.refl
      | true =>
        obtain ⟨hit, l₁, l₂, hl, her, -⟩ := find_erase hf
        obtain ⟨hreg, htitle⟩ := matching_iff.mp hit
        have hd : D s it .replace := by
          refine hD it ?_
          show it ∈ ((s.pending h.queue).find? (matching h m)).toList
          rw [pending_some hc, hf]
          exact List.mem_singleton_self it
        dsimp only
        rw [if_pos rfl, her]
        by_cases hz : it.postid.seq ≠ 0
        · rw [if_pos hz]
          refine Moves.one (Move.replace s h.queue c l₁ it l₂ _ hc hl rfl ?_ htitle.symm ?_ hd)
          · show (⟨h, it.postid.seq⟩ : MessagePost_t) = it.postid
            rw [← hreg]
          · rw [hreg]
        · rw [if_neg hz]
          refine Relation.ReflTransGen.head
            (Move.delete s h.queue c l₁ it l₂ .replace hc hl (fun _ => hd) (fun e => by cases e)) ?_
          exact post_moves m g he (Function.update_self h.queue _ s.map) rfl

theorem fasterMessage_absent {h : MessageHandler_t} (m : Message) (g : MessageTiming)
    (hc : s.map h.queue = none) : s.fasterMessage h m g = some (KNullPost, s) := by
  unfold fasterMessage
  rw [hc]

theorem fasterMessage_fresh {h : MessageHandler_t} {m : Message} {c : MessageQueueContent}
    (g : MessageTiming) (hc : s.map h.queue = some c)
    (hf : c.lst_message.find? (matching h m) = none) :
    s.fasterMessage h m g = some ((s.makeSeq.2.newWrapper h m g s.makeSeq.1).postid,
      s.makeSeq.2.pushBack h.queue c (s.makeSeq.2.newWrapper h m g s.makeSeq.1)) := by
  unfold fasterMessage
  rw [hc]
  dsimp only
  rw [hf]

theorem fasterMessage_found {h : MessageHandler_t} {m : Message} {c : MessageQueueContent}
    {it : MessageWrapper} (g : MessageTiming) (hc : s.map h.queue = some c)
    (hf : c.lst_message.find? (matching h m) = some it) :
    s.fasterMessage h m g = (sooner s.now it (s.newWrapper h m g 0)).map fun kept =>
      if kept then (it.postid, s.makeSeq.2)
      else (it.postid, (s.makeSeq.2.erase h.queue c (c.lst_message.eraseP (matching h m)) it
        .replace).pushBack h.queue { c with lst_message := c.lst_message.eraseP (matching h m) }
          { s.makeSeq.2.newWrapper h m g s.makeSeq.1 with postid := it.postid }) := by
  unfold fasterMessage
  rw [hc]
  dsimp only
  rw [hf]
  rfl

theorem fasterMessage_moves (he : E .post) (h : MessageHandler_t) (m : Message) (g : MessageTiming)
    (hD : ∀ w ∈ (Call.fasterMessage h m g).victims s,
      ∀ u : State, u.loops = s.loops → u.ctl = s.ctl → D u w .replace)
    {r : MessagePost_t × State} (hr : s.fasterMessage h m g = some r) : Moves D E s r.2 := by
  cases hc : s.map h.queue with
  | none =>
    rw [fasterMessage_absent m g hc] at hr
    cases hr
    exact Relation.ReflTransGen.refl
  | some c =>
    cases hf : c.lst_message.find? (matching h m) with
    | none =>
      rw [fasterMessage_fresh g hc hf] at hr
      cases hr
      exact post_moves m g he hc rfl
    | some it =>
      rw [fasterMessage_found g hc hf] at hr
      obtain ⟨kept, hkept, rfl⟩ := Option.map_eq_some_iff.mp hr
      cases kept with
      | true => exact Moves.one (Move.draw s)
      | false =>
        obtain ⟨hit, l₁, l₂, hl, her, -⟩ := find_erase hf
        obtain ⟨hreg, htitle⟩ := matching_iff.mp hit
        have hd : D s.makeSeq.2 it .replace := by
          refine hD it ?_ _ rfl rfl
          show it ∈ (((s.pending h.queue).find? (matching h m)).toList.filter _)
          rw [pending_some hc, hf, List.mem_filter]
          exact ⟨List.mem_singleton_self it, beq_iff_eq.mpr hkept⟩
        rw [her]
        refine Relation.ReflTransGen.head (Move.draw s) (Moves.one ?_)
        exact Move.replace s.makeSeq.2 h.queue c l₁ it l₂ _ hc hl rfl rfl htitle.symm
          (by rw [hreg]) hd

theorem cancelMessage_moves (i : MessagePost_t)
    (hD : ∀ w ∈ (Call.cancelMessage i).victims s, D s w .cancelPost) :
    Moves D E s (s.cancelMessage i).2 := by
  unfold cancelMessage
  by_cases hz : i.reg.queue = 0 ∨ i.seq = 0
  · rw [if_pos hz]
  · rw [if_neg hz]
    cases hc : s.map i.reg.queue with
    | none => exact Relation.ReflTransGen.refl
    | some c =>
      dsimp only
      cases hf : c.lst_message.find? (fun it => i == it.postid) with
      | none => exact Relation.ReflTransGen.refl
      | some it =>
        obtain ⟨-, l₁, l₂, hl, he, -⟩ := find_erase hf
        have hd : D s it .cancelPost := by
          refine hD it ?_
          show it ∈ if i.reg.queue = 0 ∨ i.seq = 0 then []
            else ((s.pending i.reg.queue).find? (fun it => i == it.postid)).toList
          rw [if_neg hz, pending_some hc, hf]
          exact List.mem_singleton_self it
        rw [he]
        exact Moves.one (Move.delete s i.reg.queue c l₁ it l₂ .cancelPost hc hl (fun _ => hd)
          (fun e => by cases e))

theorem eraseAll_moves {q : MessageQueue_t} {c : MessageQueueContent} (p : MessageWrapper → Bool)
    {why : Why} (hw : why ≠ .release) (hc : s.map q = some c)
    (hD : ∀ w ∈ (s.pending q).filter p, ∀ u : State, u.loops = s.loops → D u w why) :
    Moves D E s (s.eraseWhere q c p why [] c.lst_message) := by
  rw [pending_some hc] at hD
  exact eraseWhere_moves [] c.lst_message hc (fun e => absurd e hw)
    (fun _ w hm hp u hu => hD w (List.mem_filter.mpr ⟨hm, hp⟩) u hu)

theorem cancelMessageOfHandler_moves (h : MessageHandler_t)
    (hD : ∀ w ∈ (Call.cancelMessageOfHandler h).victims s,
      ∀ u : State, u.loops = s.loops → D u w .cancelHandler) :
    Moves D E s (s.cancelMessageOfHandler h) := by
  unfold cancelMessageOfHandler
  by_cases hz : h.queue = 0
  · rw [if_pos hz]
  · have hv : (Call.cancelMessageOfHandler h).victims s =
        (s.pending h.queue).filter (fun it => h == it.postid.reg) := if_neg hz
    rw [hv] at hD
    rw [if_neg hz]
    cases hc : s.map h.queue with
    | none => exact Relation.ReflTransGen.refl
    | some c => exact eraseAll_moves _ (by decide) hc hD

theorem cancelMessageOfTitle_moves (h : MessageHandler_t) (x : UInt64)
    (hD : ∀ w ∈ (Call.cancelMessageOfTitle h x).victims s,
      ∀ u : State, u.loops = s.loops → D u w .cancelTitle) :
    Moves D E s (s.cancelMessageOfTitle h x) := by
  unfold cancelMessageOfTitle
  by_cases hz : h.queue = 0
  · rw [if_pos hz]
  · have hv : (Call.cancelMessageOfTitle h x).victims s = (s.pending h.queue).filter
        (fun it => h == it.postid.reg && x == it.message.title) := if_neg hz
    rw [hv] at hD
    rw [if_neg hz]
    cases hc : s.map h.queue with
    | none => exact Relation.ReflTransGen.refl
    | some c => exact eraseAll_moves _ (by decide) hc hD

theorem Call.exec_moves (k : Call) (hok : k.ok = true) (hE : k.posts = true → E .post)
    (hD : ∀ w ∈ k.victims s, ∀ u : State, u.loops = s.loops →
      (k.why = .replace → u.ctl = s.ctl) → D u w k.why) (hs : k.exec s = some s') :
    Moves D E s s' := by
  cases k with
  | createMessageQueueInfo tid =>
    cases hs
    apply createMessageQueueInfo_moves
    intro h
    rw [h] at hok
    cases hok
  | installMessageHandler h r q =>
    cases hs
    exact installMessageHandler_moves h r q
  | unInstallMessageHandler h =>
    cases hs
    exact unInstallMessageHandler_moves h
  | postMessage h m g =>
    cases hs
    exact postMessage_moves (hE rfl) h m g
  | singletonMessage r h m g =>
    cases hs
    exact singletonMessage_moves (hE rfl) r h m g (fun w hw => hD w hw s rfl (fun _ => rfl))
  | broadcastMessage q m g =>
    cases hs
    exact broadcastMessage_moves (hE rfl) q m g
  | fasterMessage h m g =>
    obtain ⟨r, hr, rfl⟩ := Option.map_eq_some_iff.mp hs
    exact fasterMessage_moves (hE rfl) h m g (fun w hw u hu hk => hD w hw u hu (fun _ => hk)) hr
  | cancelMessage i =>
    cases hs
    exact cancelMessage_moves i (fun w hw => hD w hw s rfl (fun _ => rfl))
  | cancelMessageOfHandler h =>
    cases hs
    exact cancelMessageOfHandler_moves h (fun w hw u hu => hD w hw u hu (fun e => by cases e))
  | cancelMessageOfTitle h x =>
    cases hs
    exact cancelMessageOfTitle_moves h x (fun w hw u hu => hD w hw u hu (fun e => by cases e))
  | breakMessageQueueRunloop q =>
    cases hs
    unfold State.breakMessageQueueRunloop
    cases hc : s.map q with
    | none => exact Relation.ReflTransGen.refl
    | some c => exact Moves.one (Move.setBreak s q c hc)

end

/-! ## the loop as moves -/

section
variable {s s' : State} {t : Thread}

theorem returned_map (t : Thread) (f : Frame) (s : State) : (s.returned t f).map = s.map := by
  unfold returned
  split
  · rfl
  · rfl

theorem Breaker.eval_gone {brk : Bool} {c : MessageQueueContent} {b : Breaker}
    (h : b.eval brk c = true) (m : MessagePost_t) (hb : b = .gone m) :
    ∀ it ∈ c.lst_message, it.postid ≠ m := by
  intro it hit he
  rw [hb] at h
  have hany : c.lst_message.any (fun it => m == it.postid) = true :=
    List.any_eq_true.mpr ⟨it, hit, by rw [he]; exact beq_self_eq_true m⟩
  have hno : c.lst_message.any (fun it => m == it.postid) = false := by simpa [Breaker.eval] using h
  rw [hany] at hno
  cases hno

theorem eraseWhere_all {q : MessageQueue_t} {content : MessageQueueContent} {why : Why}
    (rest : List MessageWrapper) (hc : s.map q = some { content with lst_message := rest }) :
    (s.eraseWhere q content (fun _ => true) why [] rest).map q =
      some { content with lst_message := [] } := by
  induction rest generalizing s with
  | nil => exact hc
  | cons it rest ih => exact ih (Function.update_self q _ s.map)

theorem release_moves {c : MessageQueueContent} (hc : s.map t = some c)
    (hi : c.lst_runloop_info = []) : Moves D E s (s.releaseMessageQueueInfo t) := by
  have h1 : Moves D E s (s.eraseWhere t c (fun _ => true) .release [] c.lst_message) :=
    eraseWhere_moves [] c.lst_message hc (fun _ => hi) (fun e => absurd rfl e)
  unfold releaseMessageQueueInfo
  rw [hc]
  exact h1.tail (Move.dropQueue _ t _ (eraseWhere_all c.lst_message hc) rfl hi)

theorem leave_moves {c : MessageQueueContent} {f : Frame} {rest : List Frame}
    {front : List RunLoopInfo} {info : RunLoopInfo} (hk : s.ctl t = .free)
    (hf : s.frames t = f :: rest) (hpc : f.pc = .head) (hc : s.map t = some c)
    (hi : c.lst_runloop_info = front ++ [info])
    (hb : ∀ m, f.breaker_func_ = .gone m → (∀ it ∈ c.lst_message, it.postid ≠ m) ∨ E .cut) :
    Moves D E s (s.leave t f rest c) := by
  have hd : c.lst_runloop_info.dropLast = front := by rw [hi, List.dropLast_concat]
  unfold leave
  dsimp only
  rw [hd]
  refine Relation.ReflTransGen.head (Move.pop s t c f rest front info hk hf hpc hc hi hb) ?_
  split
  · rename_i hne
    refine release_moves (c := { c with lst_runloop_info := front }) ?_ hne
    rw [returned_map]
    exact Function.update_self t _ s.map
  · exact Relation.ReflTransGen.refl

theorem loopHead_moves {brk : Bool} (hk : s.ctl t = .free) (h : s.loopHead t brk = some s')
    (hcut : (Act.loop t brk).cuts s → E .cut) : Moves D E s s' := by
  obtain ⟨f, rest, c, front, info, hf, hpc, hc, hi, hturn⟩ := loopHead_cases h
  have hclear : Move D E s _ := Move.clear s t c f rest front info hk hf hpc hc hi
  refine Relation.ReflTransGen.head hclear ?_
  have hk' : ((s.setQueue t (some { c with
      lst_runloop_info := front ++ [info.clear] })).notifyAll (.runing info.runing_cond)).ctl t =
        .free := by
    show (s.ctl t).notify _ = _
    rw [hk]
    rfl
  have hc' := Function.update_self t
    (some { c with lst_runloop_info := front ++ [info.clear] }) s.map
  cases hturn with
  | back hb =>
    refine leave_moves hk' hf hpc hc' rfl (fun m hm => ?_)
    rcases Bool.or_eq_true_iff.mp hb with hb | hb
    · by_cases hno : ∀ it ∈ c.lst_message, it.postid ≠ m
      · exact Or.inl hno
      · push Not at hno
        obtain ⟨it, hit, hid⟩ := hno
        exact Or.inr (hcut ⟨f, rest, c, m, it, hf, hm, hc, hb, hit, hid⟩)
    · exact Or.inl (Breaker.eval_gone hb m hm)
  | idle n hb hs => exact Moves.one (Move.idle _ t _ f rest n hk' hf hpc hc' hs)
  | pick w d lst hb hs =>
    exact Moves.one (Move.pick _ t _ f rest front info.clear w d lst hk' hf hpc hc' rfl hs)

/-! ## the calls of a thread as moves -/

theorem canCall_free (h : s.canCall t = true) : s.ctl t = .free := by
  unfold canCall at h
  exact eq_of_beq (Bool.and_eq_true_iff.mp h).1

theorem find_none_ne {m : MessagePost_t} {l : List MessageWrapper}
    (h : l.find? (fun v => m == v.postid) = none) : ∀ it ∈ l, it.postid ≠ m := by
  intro it hit he
  have := List.find?_eq_none.mp h it hit
  rw [he] at this
  exact this (beq_self_eq_true m)

theorem currentThread_eq {q : MessageQueue_t} (h0 : s.map 0 = none) (hc : s.map q ≠ none)
    (h : q = s.currentThreadMessageQueue t) : q = t := by
  unfold currentThreadMessageQueue at h
  split at h
  · exact h
  · rw [h] at hc
    exact absurd h0 hc

/-- **`WaitMessage`** does nothing, takes the thread somewhere, or returns at once. -/
theorem waitMessage_cases {m : MessagePost_t} (h0 : s.map 0 = none) (hcall : s.canCall t = true) :
    s.waitMessage t m = s ∨ (∃ k, Turns s t k ∧ s.waitMessage t m = s.setCtl t k) ∨
      Comes E s t (.waited t m) ∧ s.waitMessage t m = (s.setCtl t .free).emit (.waited t m) := by
  unfold waitMessage
  cases hc : s.map m.reg.queue with
  | none => exact Or.inl rfl
  | some c =>
    dsimp only
    cases hf : c.lst_message.find? (fun v => m == v.postid) with
    | some it =>
      have hit : it ∈ s.pending m.reg.queue := by
        rw [pending_some hc]
        exact List.mem_of_find?_eq_some hf
      have hm : it.postid = m := by
        have := List.find?_some hf
        exact (eq_of_beq this).symm
      dsimp only
      split
      · rename_i hq
        have hq' : m.reg.queue = t := currentThread_eq h0 (by rw [hc]; simp) hq
        exact Or.inr (Or.inl ⟨_, Turns.waiting m it hcall hq' (hq' ▸ hit) hm, rfl⟩)
      · exact Or.inr (Or.inl ⟨_, Turns.pending m it hcall hit hm, rfl⟩)
    | none =>
      have hnp : ∀ it ∈ s.pending m.reg.queue, it.postid ≠ m := by
        rw [pending_some hc]
        exact find_none_ne hf
      dsimp only
      cases hv : c.lst_runloop_info.find? (fun v => m == v.runing_message_id) with
      | some v =>
        dsimp only
        split
        · exact Or.inl rfl
        · refine Or.inr (Or.inl ⟨_, Turns.runing m v hcall hnp ?_, rfl⟩)
          rw [infos_some hc]
          exact hv
      | none =>
        refine Or.inr (Or.inr ⟨Comes.gone m (canCall_free hcall) hnp ?_, ?_⟩)
        · rw [infos_some hc]
          intro v hmem he
          have := List.find?_eq_none.mp hv v hmem
          rw [he] at this
          exact this (beq_self_eq_true _)
        · have hfree : s.setCtl t .free = s := by
            unfold setCtl
            rw [← canCall_free hcall, Function.update_eq_self]
          rw [hfree]

theorem waitMessage_moves {m : MessagePost_t} (h0 : s.map 0 = none) (hcall : s.canCall t = true) :
    Moves D E s (s.waitMessage t m) := by
  rcases waitMessage_cases (m := m) h0 hcall with he | ⟨k, hT, he⟩ | ⟨hC, he⟩
  · rw [he]
  · rw [he]
    exact Moves.one (Move.turn s t k hT)
  · rw [he]
    exact Moves.one (Move.come s t _ hC)

theorem unInstallMessageHandler_gone (h : MessageHandler_t) :
    h.queue = 0 ∨ h.seq = 0 ∨ (∀ x ∈ (s.unInstallMessageHandler h).installed h.queue, x.reg ≠ h) ∨
      ∃ x, Event.uninstall x ∈ (s.unInstallMessageHandler h).log ∧ x.reg = h := by
  unfold unInstallMessageHandler
  by_cases hz : h.queue = 0 ∨ h.seq = 0
  · rcases hz with hz | hz
    · exact Or.inl hz
    · exact Or.inr (Or.inl hz)
  · rw [if_neg hz]
    right; right
    cases hc : s.map h.queue with
    | none =>
      left
      intro x hx
      unfold installed at hx
      rw [hc] at hx
      cases hx
    | some c =>
      dsimp only
      cases hf : c.lst_handler.find? (fun it => h == it.reg) with
      | none =>
        left
        intro x hx he
        rw [installed_some hc] at hx
        have := List.find?_eq_none.mp hf x hx
        rw [he] at this
        exact this (beq_self_eq_true _)
      | some it =>
        right
        have := List.find?_some hf
        exact ⟨it, List.mem_cons_self, (eq_of_beq this).symm⟩

theorem unInstallMessageHandler_keeps (h : MessageHandler_t) :
    (s.unInstallMessageHandler h).frames = s.frames ∧
      (s.unInstallMessageHandler h).ctl = s.ctl := by
  unfold unInstallMessageHandler
  split
  · exact ⟨rfl, rfl⟩
  · split
    · exact ⟨rfl, rfl⟩
    · split
      · exact ⟨rfl, rfl⟩
      · exact ⟨rfl, rfl⟩

theorem cancelAndWait_moves (h : MessageHandler_t) (hcall : s.canCall t = true) :
    Moves D E s ((s.unInstallMessageHandler h).setCtl t (.uninstalled h)) := by
  refine (unInstallMessageHandler_moves h).tail (Move.turn _ t _ (Turns.uninstalled h ?_ ?_))
  · obtain ⟨h1, h2⟩ := unInstallMessageHandler_keeps (s := s) h
    unfold canCall
    rw [h1, h2]
    exact hcall
  · exact unInstallMessageHandler_gone h

theorem eraseWhere_uninstalled {q : MessageQueue_t} {c : MessageQueueContent}
    {p : MessageWrapper → Bool} {why : Why} {h : MessageHandler_t} (kept rest : List MessageWrapper)
    (hk : s.ctl t = .uninstalled h) :
    (s.eraseWhere q c p why kept rest).ctl t = .uninstalled h := by
  induction rest generalizing s kept with
  | nil => exact hk
  | cons it rest ih =>
    unfold eraseWhere
    split
    · refine ih kept ?_
      show (s.ctl t).notify _ = _
      rw [hk]
      rfl
    · exact ih _ hk

theorem cancelMessageOfHandler_uninstalled {h : MessageHandler_t} (i : MessageHandler_t)
    (hk : s.ctl t = .uninstalled h) : (s.cancelMessageOfHandler i).ctl t = .uninstalled h := by
  unfold cancelMessageOfHandler
  split
  · exact hk
  · split
    · exact hk
    · exact eraseWhere_uninstalled [] _ hk

/-- **The end of `CancelAndWait`** takes the thread to sleep, or returns. -/
theorem cancelAndWaitEnd_cases {h : MessageHandler_t} (hk : s.ctl t = .cancelled h) :
    (∃ k, Turns s t k ∧ s.cancelAndWaitEnd t h = s.setCtl t k) ∨
      Comes E s t (.cancelWaited t h) ∧
        s.cancelAndWaitEnd t h = (s.setCtl t .free).emit (.cancelWaited t h) := by
  unfold cancelAndWaitEnd waitForRunningLockEnd Target.ofQueue
  dsimp only
  by_cases hq : h.queue = s.currentThreadMessageQueue t
  · rw [if_pos hq]
    exact Or.inr ⟨Comes.unlocked h hk (fun hne => absurd hq hne), rfl⟩
  · rw [if_neg hq]
    cases hc : s.map h.queue with
    | none =>
      refine Or.inr ⟨Comes.unlocked h hk (fun _ v hv => ?_), rfl⟩
      unfold infos at hv
      rw [hc] at hv
      cases hv
    | some c =>
      dsimp only
      by_cases hi : c.lst_runloop_info = []
      · rw [if_pos hi]
        refine Or.inr ⟨Comes.unlocked h hk (fun _ v hv => ?_), rfl⟩
        rw [infos_some hc, hi] at hv
        cases hv
      · rw [if_neg hi]
        cases hv : c.lst_runloop_info.find? (fun v => v.runing_handler.contains h) with
        | none =>
          refine Or.inr ⟨Comes.unlocked h hk (fun _ v hmem hh => ?_), rfl⟩
          rw [infos_some hc] at hmem
          exact List.find?_eq_none.mp hv v hmem (List.contains_iff_mem.mpr hh)
        | some v =>
          refine Or.inl ⟨_, Turns.handler h v hk ?_, rfl⟩
          rw [infos_some hc]
          exact hv

theorem cancelAndWaitEnd_moves {h : MessageHandler_t} (hk : s.ctl t = .cancelled h) :
    Moves D E s (s.cancelAndWaitEnd t h) := by
  rcases cancelAndWaitEnd_cases hk with ⟨k, hT, he⟩ | ⟨hC, he⟩
  · rw [he]
    exact Moves.one (Move.turn s t k hT)
  · rw [he]
    exact Moves.one (Move.come s t _ hC)

/-- **A step is a sequence of moves.** -/
theorem step_moves {a : Act} (h0 : s.map 0 = none) (h : step s a = some s')
    (hE : a.posts = true → E .post) (hcut : a.cuts s → E .cut)
    (hearly : ∀ t x, a.early s t x → E (.early t x))
    (hD : ∀ w ∈ a.victims s, ∀ u : State, u.loops = s.loops →
      (a.why = .replace → u.ctl = s.ctl) → D u w a.why) : Moves D E s s' := by
  cases step_cases h with
  | tick d => exact Moves.one (Move.tick s d)
  | call t k s' hg hok hs => exact k.exec_moves hok hE hD hs
  | waitMessage t m hg => exact waitMessage_moves h0 hg
  | lock t x c hg => exact Moves.one (Move.turn s t _ (Turns.lock _ hg))
  | pass t x hg => exact Relation.ReflTransGen.refl
  | cancelAndWait t i hg => exact cancelAndWait_moves i hg
  | uninstalled t i hk =>
    refine (cancelMessageOfHandler_moves i ?_).tail
      (Move.turn _ t _ (Turns.cancelled i (cancelMessageOfHandler_uninstalled i hk)))
    intro w hw u hu
    refine hD w ?_ u hu (fun e => by cases e)
    unfold Act.victims
    dsimp only
    rw [hk]
    exact hw
  | cancelled t i hk => exact cancelAndWaitEnd_moves hk
  | ran t m hk => exact Moves.one (Move.come s t _ (Comes.ran m hk))
  | woken t b c m hk =>
    exact Moves.one (Move.come s t _ (Comes.woken m c b hk (resume_early hk hearly)))
  | awake t b c hk => exact Moves.one (Move.turn s t _ (Turns.awake c b hk))
  | waited t b c i hk =>
    exact Moves.one (Move.come s t _ (Comes.waited i c b hk (resume_early hk hearly)))
  | run t b hg =>
    refine Moves.one (Move.turn s t _ (Turns.entering _ ?_ hg))
    cases b with
    | true => exact Or.inr rfl
    | false => exact Or.inl rfl
  | enter t b c hk hc => exact Moves.one (Move.enter s t b c hk hc)
  | loop t brk s' hk h => exact loopHead_moves hk h hcut
  | wake t f rest n hk hf hpc => exact Moves.one (Move.wake s t f rest n hk hf hpc)
  | callHandler t f rest w d x l hk hf hpc =>
    exact Moves.one (Move.invoke s t f rest w d x l hk hf hpc)
  | handlerReturn t f rest w d x l hk hf hpc =>
    exact Moves.one (Move.handlerReturn s t f rest w d x l hk hf hpc)
  | finish t f rest w hk hf hpc => exact Moves.one (Move.finish s t f rest w hk hf hpc)
  | finishPeriod t f rest w hk hf hpc =>
    exact Moves.one (Move.finishPeriod s t f rest w hk hf hpc)

end

/-! ## runs -/

section
variable {s s' : State}

theorem update_zero {q : MessageQueue_t} {x : Option MessageQueueContent} (h0 : s.map 0 = none)
    (hq : q ≠ 0) : Function.update s.map q x 0 = none := by
  rw [Function.update_of_ne (Ne.symm hq)]
  exact h0

theorem queue_ne_zero {q : MessageQueue_t} {c : MessageQueueContent} (h0 : s.map 0 = none)
    (hc : s.map q = some c) : q ≠ 0 := by
  intro h
  rw [h, h0] at hc
  cases hc

theorem Move.map_zero (h : Move D E s s') (h0 : s.map 0 = none) : s'.map 0 = none := by
  cases h with
  | create q hq hn => exact update_zero h0 hq
  | install q c h hc | uninstall q c l₁ h l₂ hc | enqueue q c w hc | delete q c l₁ w l₂ why hc
  | setBreak q c hc | enter q b c hk hc | clear q c f rest front info hk hf hpc hc
  | dropQueue q c hc | pick q c f rest front info w d lst hk hf hpc hc =>
    exact update_zero h0 (queue_ne_zero h0 hc)
  | replace q c l₁ w l₂ w' hc =>
    have hq := queue_ne_zero h0 hc
    exact update_zero (update_zero h0 hq) hq
  | pop q c f rest front info hk hf hpc hc =>
    rw [returned_map]
    exact update_zero h0 (queue_ne_zero h0 hc)
  | _ => exact h0

/-- **The invariant rule of the queue**: along a run whose steps delete only what `D` allows, what
every move keeps holds. -/
theorem keep_run {C : State → Act → Prop} {P : State → Prop} (hr : Runs.Run step C s s')
    (h0 : s.map 0 = none)
    (hD : ∀ u a, P u → C u a → ∀ w ∈ a.victims u, ∀ v : State, v.loops = u.loops →
      (a.why = .replace → v.ctl = u.ctl) → D v w a.why)
    (hE : E .post) (hcut : ∀ u a, C u a → a.cuts u → E .cut)
    (hearly : ∀ u a, C u a → ∀ t x, a.early u t x → E (.early t x))
    (hP : ∀ u v, P u → Move D E u v → P v) (hs : P s) : P s' ∧ s'.map 0 = none := by
  have hmove : ∀ x y, (P x ∧ x.map 0 = none) → Move D E x y → (P y ∧ y.map 0 = none) := by
    rintro x y ⟨hx, hx0⟩ hm
    exact ⟨hP x y hx hm, hm.map_zero hx0⟩
  have hstep : ∀ u a v, (P u ∧ u.map 0 = none) → C u a → step u a = some v →
      (P v ∧ v.map 0 = none) := by
    rintro u a v ⟨hu, hu0⟩ hc hs
    exact (step_moves hu0 hs (fun _ => hE) (hcut u a hc) (hearly u a hc) (hD u a hu hc)).keep hmove ⟨hu, hu0⟩
  exact hr.keep hstep ⟨hs, h0⟩

/-- the rule for runs without a condition -/
theorem keep_any {P : State → Prop} (hr : Runs.AnyRun step s s') (h0 : s.map 0 = none)
    (hP : ∀ u v, P u → Move (fun _ _ _ => True) (fun _ => True) u v → P v) (hs : P s) :
    P s' ∧ s'.map 0 = none :=
  keep_run hr h0 (fun _ _ _ _ _ _ _ _ _ => trivial) trivial (fun _ _ _ _ => trivial)
    (fun _ _ _ _ _ _ => trivial) hP hs

theorem Reachable.keep {P : State → Prop} (h : Reachable s)
    (hP : ∀ u v, P u → Move (fun _ _ _ => True) (fun _ => True) u v → P v) (hs : P init) : P s :=
  (keep_any h rfl hP hs).1

theorem Reachable.map_zero (h : Reachable s) : s.map 0 = none :=
  (keep_any (P := fun _ => True) h rfl (fun _ _ _ _ => trivial) trivial).2

end

end MessageQueue
