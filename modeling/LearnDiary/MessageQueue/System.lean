import LearnDiary.MessageQueue.Calls
import LearnDiary.Lib.Runs

/-!
# Message queues: the threads (comm/messagequeue/message_queue.cc)

`step` lets one thread pass one section under `sg_messagequeue_map_mutex`, or one piece of
`RunLoop::Run` outside of it: a handler is called, returns, the wrapper is deleted.  A thread calls
a function of the queue only while it is free and in none of its loops, or inside of a handler; it
may then enter a further loop.  The clock stands still within a step.

A step is refused (`none`) where the thread is somewhere else, and where the code has no defined
behaviour: `Run` on a thread without a queue (`ASSERT(0 != id)`), `back()` of an empty list at the
head of a loop, a difference of times that overflows.  That the head never meets the first two is
shown in `Nesting`.

`breaker_func_` of the user is the argument of `loop`; `duty_func_` runs under the lock and cannot
call the queue, it is left out.
-/

namespace MessageQueue
open State

/-! ## the loop -/

/-- what the loop over `lst_message` comes to: a wrapper to run, `delmessage` and the list behind
it, or the time to sleep, or a difference that overflows -/
inductive Scan where
  | found (messagewrapper : MessageWrapper) (delmessage : Bool) (lst : List MessageWrapper)
  | idle (wait_time : Int64)
  | overflow

def Scan.behind (it : MessageWrapper) : Scan → Scan
  | .found w d lst => .found w d (it :: lst)
  | .idle n => .idle n
  | .overflow => .overflow

/-- one round of the scan: the entry itself is taken, stays with a new record, or is passed -/
def scan (now : UInt64) (wait_time : Int64) : List MessageWrapper → Scan
  | [] => .idle wait_time
  | it :: rest =>
    let time_cost := gettickspan now it.record_time
    match it.timing.type with
    | .kImmediately => .found it true rest
    | .kAfter =>
      if it.timing.after ≤ time_cost then .found it true rest
      else
        match difference it.timing.after time_cost with
        | some left => (scan now (min wait_time left) rest).behind it
        | none => .overflow
    | .kPeriod =>
      match it.periodstatus with
      | .kAfter =>
        if it.timing.after ≤ time_cost then
          let it := { it with record_time := now, periodstatus := .kPeriod }
          .found it false (it :: rest)
        else
          match difference it.timing.after time_cost with
          | some left => (scan now (min wait_time left) rest).behind it
          | none => .overflow
      | .kPeriod =>
        if it.timing.period ≤ time_cost then
          let it := { it with record_time := now }
          .found it false (it :: rest)
        else
          match difference it.timing.period time_cost with
          | some left => (scan now (min wait_time left) rest).behind it
          | none => .overflow
      | .kImmediately => (scan now wait_time rest).behind it

/-- `int64_t wait_time = 10 * 60 * 1000` -/
def tenMinutes : Int64 := 10 * 60 * 1000

/-- the handlers a message goes to -/
def fits (reg : MessageHandler_t) (h : HandlerWrapper) : Bool :=
  reg == h.reg || (h.recvbroadcast && reg.isbroadcast)

/-- `breaker_func_ && breaker_func_()`, `brk` the answer of a user's function -/
def Breaker.eval (brk : Bool) (content : MessageQueueContent) : Breaker → Bool
  | .none => false
  | .user => brk
  | .gone m => !content.lst_message.any (fun it => m == it.postid)

namespace State

/-- `Run` returns on the thread `t`, maybe to a `WaitMessage` -/
def returned (t : Thread) (f : Frame) (s : State) : State :=
  match f.breaker_func_ with
  | .gone m => s.setCtl t (.ran m)
  | _ => s

/-- `content.lst_runloop_info.pop_back()` and what follows -/
def leave (t : Thread) (f : Frame) (rest : List Frame) (content : MessageQueueContent)
    (s : State) : State :=
  let infos := content.lst_runloop_info.dropLast
  let s := ((s.setQueue t (some { content with lst_runloop_info := infos })).setFrames t
    rest).returned t f
  if infos = [] then s.releaseMessageQueueInfo t else s

/-- the loop from its head to the handlers, to its sleep or to its end -/
def loopHead (t : Thread) (brk : Bool) (s : State) : Option State :=
  match s.frames t, s.map t with
  | f :: rest, some content =>
    match f.pc, content.lst_runloop_info.getLast? with
    | .head, some info =>
      let front := content.lst_runloop_info.dropLast
      let content := { content with lst_runloop_info := front ++ [info.clear] }
      let s := (s.setQueue t (some content)).notifyAll (.runing info.runing_cond)
      if content.breakflag || f.breaker_func_.eval brk content then some (s.leave t f rest content)
      else
        match scan s.now tenMinutes content.lst_message with
        | .idle wait_time =>
          some ((s.setFrames t ({ f with pc := .wait wait_time } :: rest)).emit (.idle t))
        | .found messagewrapper delmessage lst =>
          let fit_handler := content.lst_handler.filter (fits messagewrapper.postid.reg)
          let info := { info.clear with
            runing_handler := fit_handler.map (·.reg)
            runing_message_id := messagewrapper.postid
            runing_message := some messagewrapper.self }
          let content := { content with lst_message := lst, lst_runloop_info := front ++ [info] }
          some (((s.setQueue t (some content)).setFrames t
            ({ f with pc := .dispatch messagewrapper delmessage none fit_handler } :: rest)).emit
              (.pick messagewrapper fit_handler))
        | .overflow => none
    | _, _ => none
  | _, _ => none

/-- the entry of `Run`: its record is pushed -/
def enter (t : Thread) (s : State) : Option State :=
  match s.ctl t, s.map t with
  | .entering b, some content =>
    let content := { content with
      lst_runloop_info := content.lst_runloop_info ++ [{ runing_cond := s.next }] }
    some ((({ s with next := s.next + 1 }.setQueue t (some content)).setFrames t
      (⟨s.next, b, .head⟩ :: s.frames t)).setCtl t .free)
  | _, _ => none

/-- the pieces of an iteration outside of the lock, and the end of the sleep -/
def wake (t : Thread) (s : State) : Option State :=
  match s.frames t with
  | f :: rest =>
    match f.pc with
    | .wait _ => some (s.setFrames t ({ f with pc := .head } :: rest))
    | _ => none
  | _ => none

def callHandler (t : Thread) (s : State) : Option State :=
  match s.frames t with
  | f :: rest =>
    match f.pc with
    | .dispatch w d none (h :: fit_handler) =>
      some ((s.setFrames t ({ f with pc := .dispatch w d (some h) fit_handler } :: rest)).emit
        (.invoke w h))
    | _ => none
  | _ => none

def handlerReturn (t : Thread) (s : State) : Option State :=
  match s.frames t with
  | f :: rest =>
    match f.pc with
    | .dispatch w d (some _) fit_handler =>
      if s.ctl t = .free then
        some (s.setFrames t ({ f with pc := .dispatch w d none fit_handler } :: rest))
      else none
    | _ => none
  | _ => none

/-- `if (delmessage) delete messagewrapper;` -/
def finish (t : Thread) (s : State) : Option State :=
  match s.frames t with
  | f :: rest =>
    match f.pc with
    | .dispatch w d none [] =>
      let s := s.setFrames t ({ f with pc := .head } :: rest)
      some (if d then (s.notifyAll (.wait_end w.self)).emit (.destroy w) else s)
    | _ => none
  | _ => none

/-! ## the calls of a thread -/

def Frame.inHandler (f : Frame) : Bool :=
  match f.pc with
  | .dispatch _ _ (some _) _ => true
  | _ => false

/-- the thread runs code of its own -/
def canCall (t : Thread) (s : State) : Bool :=
  s.ctl t == .free && (s.frames t).head?.all Frame.inHandler

def waitMessage (t : Thread) (_message : MessagePost_t) (s : State) : State :=
  let is_in_mq := _message.reg.queue = s.currentThreadMessageQueue t
  match s.map _message.reg.queue with
  | none => s
  | some content =>
    match content.lst_message.find? (fun v => _message == v.postid) with
    | some it =>
      if is_in_mq then s.setCtl t (.entering (.gone _message))
      else s.setCtl t (.blocked (.wait_end it.self) false (.waitMessage _message))
    | none =>
      match content.lst_runloop_info.find? (fun v => _message == v.runing_message_id) with
      | some v =>
        if is_in_mq then s
        else s.setCtl t (.blocked (.runing v.runing_cond) false (.waitMessage _message))
      | none => s.emit (.waited t _message)

/-- the return of `ScopeRegister::CancelAndWait`, or its sleep in `WaitForRunningLockEnd` -/
def cancelAndWaitEnd (t : Thread) (_handler : MessageHandler_t) (s : State) : State :=
  match s.waitForRunningLockEnd t (.handler _handler) with
  | some (some c) => s.setCtl t (.blocked (.runing c) false (.cancelAndWait _handler))
  | _ => (s.setCtl t .free).emit (.cancelWaited t _handler)

/-- a sleeping thread returns from the call it slept in, none of which looks again at what it
waited for; `pthread_cond_wait` may return without a notify -/
def resume (t : Thread) (notified : Bool) (s : State) : Option State :=
  match s.ctl t with
  | .blocked _ woken waiter =>
    if woken = notified then
      match waiter with
      | .waitMessage m => some ((s.setCtl t .free).emit (.waited t m))
      | .waitForRunningLockEnd => some (s.setCtl t .free)
      | .cancelAndWait h => some ((s.setCtl t .free).emit (.cancelWaited t h))
    else none
  | _ => none

end State

/-- the calls that are one section under the lock -/
inductive Call where
  | createMessageQueueInfo (_tid : Thread)
  | installMessageHandler (_handler : Nat) (_recvbroadcast : Bool)
      (_messagequeueid : MessageQueue_t)
  | unInstallMessageHandler (_handlerid : MessageHandler_t)
  | postMessage (_handlerid : MessageHandler_t) (_message : Message) (_timing : MessageTiming)
  | singletonMessage (_replace : Bool) (_handlerid : MessageHandler_t) (_message : Message)
      (_timing : MessageTiming)
  | broadcastMessage (_messagequeueid : MessageQueue_t) (_message : Message)
      (_timing : MessageTiming)
  | fasterMessage (_handlerid : MessageHandler_t) (_message : Message) (_timing : MessageTiming)
  | cancelMessage (_postid : MessagePost_t)
  | cancelMessageOfHandler (_handlerid : MessageHandler_t)
  | cancelMessageOfTitle (_handlerid : MessageHandler_t) (_title : UInt64)
  | breakMessageQueueRunloop (_messagequeueid : MessageQueue_t)

def Call.exec : Call → State → Option State
  | .createMessageQueueInfo tid, s => some (s.createMessageQueueInfo tid).2
  | .installMessageHandler h r q, s => some (s.installMessageHandler h r q).2
  | .unInstallMessageHandler h, s => some (s.unInstallMessageHandler h)
  | .postMessage h m g, s => some (s.postMessage h m g).2
  | .singletonMessage r h m g, s => some (s.singletonMessage r h m g).2
  | .broadcastMessage q m g, s => some (s.broadcastMessage q m g).2
  | .fasterMessage h m g, s => (s.fasterMessage h m g).map (·.2)
  | .cancelMessage i, s => some (s.cancelMessage i).2
  | .cancelMessageOfHandler h, s => some (s.cancelMessageOfHandler h)
  | .cancelMessageOfTitle h x, s => some (s.cancelMessageOfTitle h x)
  | .breakMessageQueueRunloop q, s => some (s.breakMessageQueueRunloop q)

/-- no thread has the id 0 -/
def Call.ok : Call → Bool
  | .createMessageQueueInfo tid => tid != 0
  | _ => true

inductive Act where
  | tick (d : UInt64)
  | call (t : Thread) (c : Call)
  | waitMessage (t : Thread) (_message : MessagePost_t)
  | waitForRunningLockEnd (t : Thread) (x : Target)
  | cancelAndWait (t : Thread) (_handler : MessageHandler_t)
  | advance (t : Thread)
  | resume (t : Thread) (notified : Bool)
  | run (t : Thread) (breaker : Bool)
  | enter (t : Thread)
  | loop (t : Thread) (brk : Bool)
  | wake (t : Thread)
  | callHandler (t : Thread)
  | handlerReturn (t : Thread)
  | finish (t : Thread)

/-- `advance` takes a `ScopeRegister::CancelAndWait` from `UnInstallMessageHandler` over
`CancelMessage` to `WaitForRunningLockEnd`, and a `WaitMessage` from its loop to its return -/
def step (s : State) : Act → Option State
  | .tick d => some { s with now := s.now + d }
  | .call t c =>
    if s.canCall t && c.ok then c.exec s else none
  | .waitMessage t m => if s.canCall t then some (s.waitMessage t m) else none
  | .waitForRunningLockEnd t x =>
    if s.canCall t then
      match s.waitForRunningLockEnd t x with
      | some (some c) => some (s.setCtl t (.blocked (.runing c) false .waitForRunningLockEnd))
      | some none => some s
      | none => none
    else none
  | .cancelAndWait t h =>
    if s.canCall t then some ((s.unInstallMessageHandler h).setCtl t (.uninstalled h)) else none
  | .advance t =>
    match s.ctl t with
    | .uninstalled h => some ((s.cancelMessageOfHandler h).setCtl t (.cancelled h))
    | .cancelled h => some (s.cancelAndWaitEnd t h)
    | .ran m => some ((s.setCtl t .free).emit (.waited t m))
    | _ => none
  | .resume t notified => s.resume t notified
  | .run t b =>
    if s.canCall t && (s.map t).isSome then
      some (s.setCtl t (.entering (if b then .user else .none)))
    else none
  | .enter t => s.enter t
  | .loop t brk => if s.ctl t = .free then s.loopHead t brk else none
  | .wake t => if s.ctl t = .free then s.wake t else none
  | .callHandler t => if s.ctl t = .free then s.callHandler t else none
  | .handlerReturn t => s.handlerReturn t
  | .finish t => if s.ctl t = .free then s.finish t else none

def init : State := {}

def Reachable (s : State) : Prop := Runs.AnyRun step init s

end MessageQueue
