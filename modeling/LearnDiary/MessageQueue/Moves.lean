import LearnDiary.MessageQueue.System

/-!
# Message queues: what a step can do

Every step of `System` is a short sequence of moves, each of which changes one thing: an entry
comes into a list, one leaves it, a loop passes from one place to the next.  What the moves keep
the steps keep, so that the code of the calls is opened here and nowhere else.

`D s w why` is what may be assumed about a wrapper that a call deletes, `E` what may be assumed
where one comes in under a new number, where a loop of `WaitMessage` ends too early, and where a
thread wakes up without a notify.

* `Move`         one change, with what the code has checked before it;
* `Moves.keep`   what every move keeps holds behind a sequence of moves.

That a step is such a sequence is in `Steps`.
-/

namespace MessageQueue
open State

section
variable {s : State} {q : MessageQueue_t} {c : MessageQueueContent}

theorem pending_some (h : s.map q = some c) : s.pending q = c.lst_message := by
  unfold pending
  rw [h]
  rfl

theorem installed_some (h : s.map q = some c) : s.installed q = c.lst_handler := by
  unfold installed
  rw [h]
  rfl

theorem infos_some (h : s.map q = some c) : s.infos q = c.lst_runloop_info := by
  unfold infos
  rw [h]
  rfl

end

section
variable (s : State) (q : MessageQueue_t) (c : Option MessageQueueContent)

theorem setQueue_infos :
    (s.setQueue q c).infos = Function.update s.infos q (c.elim [] (·.lst_runloop_info)) := by
  funext p
  unfold infos setQueue
  dsimp only
  by_cases h : p = q
  · subst h
    rw [Function.update_self, Function.update_self]
  · rw [Function.update_of_ne h, Function.update_of_ne h]

theorem setQueue_infos_same (h : c.elim [] (·.lst_runloop_info) = s.infos q) :
    (s.setQueue q c).infos = s.infos := by
  rw [setQueue_infos, h, Function.update_eq_self]

end

/-- the place of a thread, woken or not -/
def Ctl.still : Ctl → Ctl
  | .blocked cond _ waiter => .blocked cond false waiter
  | k => k

theorem still_notify (c : Cond) (k : Ctl) : (k.notify c).still = k.still := by
  cases k with
  | _ => rfl

/-- the activations, their entries, and the places of the threads -/
def State.loops (s : State) :
    (Thread → List Frame) × (MessageQueue_t → List RunLoopInfo) × (Thread → Ctl) :=
  (s.frames, s.infos, fun t => (s.ctl t).still)

/-! ## what a call deletes -/

/-- the wrappers a call takes out of the list and deletes -/
def Call.victims (s : State) : Call → List MessageWrapper
  | .singletonMessage true h m _ => ((s.pending h.queue).find? (matching h m)).toList
  | .fasterMessage h m g =>
    ((s.pending h.queue).find? (matching h m)).toList.filter (fun it =>
      sooner s.now it (s.newWrapper h m g 0) == some false)
  | .cancelMessage i =>
    if i.reg.queue = 0 ∨ i.seq = 0 then []
    else ((s.pending i.reg.queue).find? (fun it => i == it.postid)).toList
  | .cancelMessageOfHandler h =>
    if h.queue = 0 then [] else (s.pending h.queue).filter (fun it => h == it.postid.reg)
  | .cancelMessageOfTitle h x =>
    if h.queue = 0 then []
    else (s.pending h.queue).filter (fun it => h == it.postid.reg && x == it.message.title)
  | _ => []

def Call.why : Call → Why
  | .cancelMessage _ => .cancelPost
  | .cancelMessageOfHandler _ => .cancelHandler
  | .cancelMessageOfTitle _ _ => .cancelTitle
  | _ => .replace

def Act.victims (s : State) : Act → List MessageWrapper
  | .call _ c => c.victims s
  | .advance t =>
    match s.ctl t with
    | .uninstalled h => (Call.cancelMessageOfHandler h).victims s
    | _ => []
  | _ => []

/-- the calls that may bring in a wrapper under a new number -/
def Call.posts : Call → Bool
  | .postMessage _ _ _ => true
  | .singletonMessage _ _ _ _ => true
  | .broadcastMessage _ _ _ => true
  | .fasterMessage _ _ _ => true
  | _ => false

def Act.posts : Act → Bool
  | .call _ c => c.posts
  | _ => false

/-- the queue of the thread is broken while a `WaitMessage` of its own waits for a pending message -/
def Act.cuts (s : State) : Act → Prop
  | .loop t _ => ∃ f rest c m it, s.frames t = f :: rest ∧ f.breaker_func_ = .gone m ∧
      s.map t = some c ∧ c.breakflag = true ∧ it ∈ c.lst_message ∧ it.postid = m
  | _ => False

/-- the thread in `x` wakes up without a notify -/
def Act.early (s : State) (t : Thread) (x : Waiter) : Act → Prop
  | .resume u notified => u = t ∧ notified = false ∧ ∃ c, s.ctl t = .blocked c false x
  | _ => False

def Act.why : Act → Why
  | .call _ c => c.why
  | _ => .cancelHandler

/-! ## the moves -/

/-- why a thread changes its place; only `ctl` changes with it -/
inductive Turns (s : State) (t : Thread) : Ctl → Prop
  | entering (b : Breaker) (hb : b = .none ∨ b = .user) (hc : s.canCall t = true) :
      Turns s t (.entering b)
  | waiting (m : MessagePost_t) (it : MessageWrapper) (hc : s.canCall t = true)
      (hq : m.reg.queue = t) (hit : it ∈ s.pending t) (hm : it.postid = m) :
      Turns s t (.entering (.gone m))
  | pending (m : MessagePost_t) (it : MessageWrapper) (hc : s.canCall t = true)
      (hit : it ∈ s.pending m.reg.queue) (hm : it.postid = m) :
      Turns s t (.blocked (.wait_end it.self) false (.waitMessage m))
  | runing (m : MessagePost_t) (v : RunLoopInfo) (hc : s.canCall t = true)
      (hnp : ∀ it ∈ s.pending m.reg.queue, it.postid ≠ m)
      (hv : (s.infos m.reg.queue).find? (fun v => m == v.runing_message_id) = some v) :
      Turns s t (.blocked (.runing v.runing_cond) false (.waitMessage m))
  | lock (c : Cond) (hc : s.canCall t = true) : Turns s t (.blocked c false .waitForRunningLockEnd)
  | uninstalled (h : MessageHandler_t) (hc : s.canCall t = true)
      (hh : h.queue = 0 ∨ h.seq = 0 ∨ (∀ x ∈ s.installed h.queue, x.reg ≠ h) ∨
        ∃ x, Event.uninstall x ∈ s.log ∧ x.reg = h) : Turns s t (.uninstalled h)
  | cancelled (h : MessageHandler_t) (hk : s.ctl t = .uninstalled h) : Turns s t (.cancelled h)
  | handler (h : MessageHandler_t) (v : RunLoopInfo) (hk : s.ctl t = .cancelled h)
      (hv : (s.infos h.queue).find? (fun v => v.runing_handler.contains h) = some v) :
      Turns s t (.blocked (.runing v.runing_cond) false (.cancelAndWait h))
  | awake (c : Cond) (b : Bool) (hk : s.ctl t = .blocked c b .waitForRunningLockEnd) :
      Turns s t .free

/-- what `E` is about: `post` where a wrapper comes in under a new number, `cut` where a loop of
`WaitMessage` ends while its message is pending, `early` where a thread wakes up without a notify -/
inductive Guard where
  | post
  | cut
  | early (t : Thread) (waiter : Waiter)

/-- a sleeping thread that returns was notified, or woke up early -/
theorem resume_early {E : Guard → Prop} {s : State} {t : Thread} {b : Bool} {c : Cond} {x : Waiter}
    (hk : s.ctl t = .blocked c b x)
    (h : ∀ u y, (Act.resume t b).early s u y → E (.early u y)) : b = true ∨ E (.early t x) := by
  cases b with
  | true => exact Or.inl rfl
  | false => exact Or.inr (h t x ⟨rfl, rfl, c, hk⟩)

/-- why a thread comes back from `WaitMessage` or `CancelAndWait`, the end of a loop apart -/
inductive Comes (E : Guard → Prop) (s : State) (t : Thread) : Event → Prop
  | gone (m : MessagePost_t) (hk : s.ctl t = .free)
      (hnp : ∀ it ∈ s.pending m.reg.queue, it.postid ≠ m)
      (hv : ∀ v ∈ s.infos m.reg.queue, m ≠ v.runing_message_id) : Comes E s t (.waited t m)
  | ran (m : MessagePost_t) (hk : s.ctl t = .ran m) : Comes E s t (.waited t m)
  | woken (m : MessagePost_t) (c : Cond) (b : Bool) (hk : s.ctl t = .blocked c b (.waitMessage m))
      (he : b = true ∨ E (.early t (.waitMessage m))) : Comes E s t (.waited t m)
  | unlocked (h : MessageHandler_t) (hk : s.ctl t = .cancelled h)
      (hv : h.queue ≠ s.currentThreadMessageQueue t →
        ∀ v ∈ s.infos h.queue, h ∉ v.runing_handler) : Comes E s t (.cancelWaited t h)
  | waited (h : MessageHandler_t) (c : Cond) (b : Bool)
      (hk : s.ctl t = .blocked c b (.cancelAndWait h))
      (he : b = true ∨ E (.early t (.cancelAndWait h))) : Comes E s t (.cancelWaited t h)

variable (D : State → MessageWrapper → Why → Prop) (E : Guard → Prop)

inductive Move : State → State → Prop
  | tick (s : State) (d : UInt64) : Move s { s with now := s.now + d }
  | draw (s : State) : Move s s.makeSeq.2
  | create (s : State) (q : MessageQueue_t) (hq : q ≠ 0) (hn : s.map q = none) :
      Move s (((s.makeSeq.2.setQueue q (some {
        invoke_reg := ⟨q, s.s_seq + 1⟩, lst_handler := [⟨⟨q, s.s_seq + 1⟩, 0, false⟩] })).emit
          (.create q)).emit (.install ⟨⟨q, s.s_seq + 1⟩, 0, false⟩))
  | install (s : State) (q : MessageQueue_t) (c : MessageQueueContent) (h : HandlerWrapper)
      (hc : s.map q = some c) (hreg : h.reg = ⟨q, s.s_seq + 1⟩) :
      Move s ((s.makeSeq.2.setQueue q (some { c with lst_handler := c.lst_handler ++ [h] })).emit
        (.install h))
  | uninstall (s : State) (q : MessageQueue_t) (c : MessageQueueContent)
      (l₁ : List HandlerWrapper) (h : HandlerWrapper) (l₂ : List HandlerWrapper)
      (hc : s.map q = some c) (hl : c.lst_handler = l₁ ++ h :: l₂) :
      Move s ((s.setQueue q (some { c with lst_handler := l₁ ++ l₂ })).emit (.uninstall h))
  | enqueue (s : State) (q : MessageQueue_t) (c : MessageQueueContent) (w : MessageWrapper)
      (hc : s.map q = some c) (hself : w.self = s.next) (hseq : w.postid.seq = s.s_seq + 1)
      (hq : w.postid.reg.queue = q) (he : E .post) : Move s (s.makeSeq.2.pushBack q c w)
  | replace (s : State) (q : MessageQueue_t) (c : MessageQueueContent) (l₁ : List MessageWrapper)
      (w : MessageWrapper) (l₂ : List MessageWrapper) (w' : MessageWrapper)
      (hc : s.map q = some c) (hl : c.lst_message = l₁ ++ w :: l₂) (hself : w'.self = s.next)
      (hid : w'.postid = w.postid) (hm : w'.message.title = w.message.title)
      (hq : w.postid.reg.queue = q) (hd : D s w .replace) :
      Move s ((s.erase q c (l₁ ++ l₂) w .replace).pushBack q { c with lst_message := l₁ ++ l₂ } w')
  | delete (s : State) (q : MessageQueue_t) (c : MessageQueueContent) (l₁ : List MessageWrapper)
      (w : MessageWrapper) (l₂ : List MessageWrapper) (why : Why)
      (hc : s.map q = some c) (hl : c.lst_message = l₁ ++ w :: l₂)
      (hd : why ≠ .release → D s w why) (hr : why = .release → c.lst_runloop_info = []) :
      Move s (s.erase q c (l₁ ++ l₂) w why)
  | setBreak (s : State) (q : MessageQueue_t) (c : MessageQueueContent) (hc : s.map q = some c) :
      Move s (s.setQueue q (some { c with breakflag := true }))
  | enter (s : State) (t : Thread) (b : Breaker) (c : MessageQueueContent)
      (hk : s.ctl t = .entering b) (hc : s.map t = some c) :
      Move s ((({ s with next := s.next + 1 }.setQueue t (some { c with
        lst_runloop_info := c.lst_runloop_info ++ [({ runing_cond := s.next } : RunLoopInfo)] })).setFrames t
          (⟨s.next, b, .head⟩ :: s.frames t)).setCtl t .free)
  | clear (s : State) (t : Thread) (c : MessageQueueContent) (f : Frame) (rest : List Frame)
      (front : List RunLoopInfo) (info : RunLoopInfo) (hk : s.ctl t = .free)
      (hf : s.frames t = f :: rest) (hpc : f.pc = .head) (hc : s.map t = some c)
      (hi : c.lst_runloop_info = front ++ [info]) :
      Move s ((s.setQueue t (some { c with lst_runloop_info := front ++ [info.clear] })).notifyAll
        (.runing info.runing_cond))
  | pop (s : State) (t : Thread) (c : MessageQueueContent) (f : Frame) (rest : List Frame)
      (front : List RunLoopInfo) (info : RunLoopInfo) (hk : s.ctl t = .free)
      (hf : s.frames t = f :: rest) (hpc : f.pc = .head) (hc : s.map t = some c)
      (hi : c.lst_runloop_info = front ++ [info])
      (hb : ∀ m, f.breaker_func_ = .gone m → (∀ it ∈ c.lst_message, it.postid ≠ m) ∨ E .cut) :
      Move s (((s.setQueue t (some { c with lst_runloop_info := front })).setFrames t rest).returned
        t f)
  | dropQueue (s : State) (t : Thread) (c : MessageQueueContent) (hc : s.map t = some c)
      (hl : c.lst_message = []) (hi : c.lst_runloop_info = []) :
      Move s ((s.setQueue t none).emit (.release t))
  | idle (s : State) (t : Thread) (c : MessageQueueContent) (f : Frame) (rest : List Frame)
      (wait_time : Int64) (hk : s.ctl t = .free) (hf : s.frames t = f :: rest) (hpc : f.pc = .head)
      (hc : s.map t = some c) (hs : scan s.now tenMinutes c.lst_message = .idle wait_time) :
      Move s ((s.setFrames t ({ f with pc := .wait wait_time } :: rest)).emit (.idle t))
  | pick (s : State) (t : Thread) (c : MessageQueueContent) (f : Frame) (rest : List Frame)
      (front : List RunLoopInfo) (info : RunLoopInfo) (w : MessageWrapper) (d : Bool)
      (lst : List MessageWrapper) (hk : s.ctl t = .free)
      (hf : s.frames t = f :: rest) (hpc : f.pc = .head) (hc : s.map t = some c)
      (hi : c.lst_runloop_info = front ++ [info])
      (hs : scan s.now tenMinutes c.lst_message = .found w d lst) :
      Move s (((s.setQueue t (some { c with
        lst_message := lst
        lst_runloop_info := front ++ [{ info with
          runing_handler := (c.lst_handler.filter (fits w.postid.reg)).map (·.reg)
          runing_message_id := w.postid
          runing_message := some w.self }] })).setFrames t
            ({ f with pc := .dispatch w d none (c.lst_handler.filter (fits w.postid.reg)) } ::
              rest)).emit (.pick w (c.lst_handler.filter (fits w.postid.reg))))
  | wake (s : State) (t : Thread) (f : Frame) (rest : List Frame) (n : Int64)
      (hk : s.ctl t = .free) (hf : s.frames t = f :: rest) (hpc : f.pc = .wait n) :
      Move s (s.setFrames t ({ f with pc := .head } :: rest))
  | invoke (s : State) (t : Thread) (f : Frame) (rest : List Frame) (w : MessageWrapper) (d : Bool)
      (h : HandlerWrapper) (l : List HandlerWrapper) (hk : s.ctl t = .free)
      (hf : s.frames t = f :: rest) (hpc : f.pc = .dispatch w d none (h :: l)) :
      Move s ((s.setFrames t ({ f with pc := .dispatch w d (some h) l } :: rest)).emit (.invoke w h))
  | handlerReturn (s : State) (t : Thread) (f : Frame) (rest : List Frame) (w : MessageWrapper)
      (d : Bool) (h : HandlerWrapper) (l : List HandlerWrapper) (hk : s.ctl t = .free)
      (hf : s.frames t = f :: rest) (hpc : f.pc = .dispatch w d (some h) l) :
      Move s (s.setFrames t ({ f with pc := .dispatch w d none l } :: rest))
  | finish (s : State) (t : Thread) (f : Frame) (rest : List Frame) (w : MessageWrapper)
      (hk : s.ctl t = .free) (hf : s.frames t = f :: rest)
      (hpc : f.pc = .dispatch w true none []) :
      Move s (((s.setFrames t ({ f with pc := .head } :: rest)).notifyAll (.wait_end w.self)).emit
        (.destroy w))
  | finishPeriod (s : State) (t : Thread) (f : Frame) (rest : List Frame) (w : MessageWrapper)
      (hk : s.ctl t = .free) (hf : s.frames t = f :: rest)
      (hpc : f.pc = .dispatch w false none []) :
      Move s (s.setFrames t ({ f with pc := .head } :: rest))
  | turn (s : State) (t : Thread) (k : Ctl) (h : Turns s t k) : Move s (s.setCtl t k)
  | come (s : State) (t : Thread) (e : Event) (h : Comes E s t e) :
      Move s ((s.setCtl t .free).emit e)

abbrev Moves : State → State → Prop := Relation.ReflTransGen (Move D E)

variable {D} {E}

theorem Moves.keep {s s' : State} {P : State → Prop} (h : Moves D E s s')
    (hP : ∀ s s', P s → Move D E s s' → P s') (hs : P s) : P s' := by
  induction h with
  | refl => exact hs
  | tail _ hm ih => exact hP _ _ ih hm

end MessageQueue
