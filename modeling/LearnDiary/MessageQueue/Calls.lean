import LearnDiary.MessageQueue.State
import Mathlib.Algebra.Group.Int.Defs

/-!
# Message queues: the calls (comm/messagequeue/message_queue.cc)

Every function here is one section under `sg_messagequeue_map_mutex`; it takes the state and gives
its result and the new state.  A call for a queue that is not in the map changes nothing.  A
difference of two `int64_t` that overflows has no outcome, and neither has the call.  The overloads
of `CancelMessage` are `cancelMessage`, `cancelMessageOfHandler`, `cancelMessageOfTitle`.
`_handler` of `InstallMessageHandler` is the address of the function.

The queries at the end read the loops of a queue; `none` is `back()` or `front()` of an empty list.
-/

namespace MessageQueue
namespace State

/-- `__MakeSeq`: an `unsigned int` that wraps -/
def makeSeq (s : State) : UInt32 × State :=
  (s.s_seq + 1, { s with s_seq := s.s_seq + 1, log := .draw (s.s_seq + 1) :: s.log })

/-- the constructor of `MessageWrapper` -/
def newWrapper (_handlerid : MessageHandler_t) (_message : Message) (_timing : MessageTiming)
    (_seq : UInt32) (s : State) : MessageWrapper :=
  { self := s.next, postid := ⟨_handlerid, _seq⟩, message := _message, timing := _timing
    periodstatus := if _timing.type ≠ .kImmediately then .kAfter else .kImmediately
    record_time := if _timing.type ≠ .kImmediately then s.now else 0 }

/-- `content.lst_message.push_back(messagewrapper)`, the wrapper made by this call -/
def pushBack (q : MessageQueue_t) (content : MessageQueueContent) (messagewrapper : MessageWrapper)
    (s : State) : State :=
  ({ s with next := s.next + 1 }.setQueue q (some { content with
    lst_message := content.lst_message ++ [messagewrapper] })).emit (.enqueue messagewrapper)

/-- `delete(*it); content.lst_message.erase(it);`, which leaves `lst` -/
def erase (q : MessageQueue_t) (content : MessageQueueContent) (lst : List MessageWrapper)
    (it : MessageWrapper) (why : Why) (s : State) : State :=
  ((s.setQueue q (some { content with lst_message := lst })).notifyAll (.wait_end it.self)).emit
    (.remove it why)

/-- the loops that erase every entry `p` is true of; `kept` are the entries they have passed -/
def eraseWhere (q : MessageQueue_t) (content : MessageQueueContent) (p : MessageWrapper → Bool)
    (why : Why) (kept : List MessageWrapper) : List MessageWrapper → State → State
  | [], s => s
  | it :: rest, s =>
    if p it then eraseWhere q content p why kept rest (s.erase q content (kept ++ rest) it why)
    else eraseWhere q content p why (kept ++ [it]) rest s

/-! ## handlers and queues -/

/-- `__CreateMessageQueueInfo` -/
def createMessageQueueInfo (_tid : Thread) (s : State) : MessageQueue_t × State :=
  match s.map _tid with
  | some _ => (_tid, s)
  | none =>
    let r := s.makeSeq
    let handler : HandlerWrapper := ⟨⟨_tid, r.1⟩, 0, false⟩
    (_tid, ((r.2.setQueue _tid (some { invoke_reg := handler.reg, lst_handler := [handler] })).emit
      (.create _tid)).emit (.install handler))

/-- `__ReleaseMessageQueueInfo`: every wrapper is deleted, then the handlers with the record -/
def releaseMessageQueueInfo (q : MessageQueue_t) (s : State) : State :=
  match s.map q with
  | none => s
  | some content =>
    ((s.eraseWhere q content (fun _ => true) .release [] content.lst_message).setQueue q none).emit
      (.release q)

def installMessageHandler (_handler : Nat) (_recvbroadcast : Bool)
    (_messagequeueid : MessageQueue_t) (s : State) : MessageHandler_t × State :=
  match s.map _messagequeueid with
  | none => (KNullHandler, s)
  | some content =>
    let r := s.makeSeq
    let handler : HandlerWrapper := ⟨⟨_messagequeueid, r.1⟩, _handler, _recvbroadcast⟩
    (handler.reg, (r.2.setQueue _messagequeueid (some { content with
      lst_handler := content.lst_handler ++ [handler] })).emit (.install handler))

def unInstallMessageHandler (_handlerid : MessageHandler_t) (s : State) : State :=
  if _handlerid.queue = 0 ∨ _handlerid.seq = 0 then s
  else
    match s.map _handlerid.queue with
    | none => s
    | some content =>
      match content.lst_handler.find? (fun it => _handlerid == it.reg) with
      | none => s
      | some it => (s.setQueue _handlerid.queue (some { content with
          lst_handler := content.lst_handler.eraseP (fun it => _handlerid == it.reg) })).emit
            (.uninstall it)

/-! ## posting -/

def postMessage (_handlerid : MessageHandler_t) (_message : Message) (_timing : MessageTiming)
    (s : State) : MessagePost_t × State :=
  match s.map _handlerid.queue with
  | none => (KNullPost, s)
  | some content =>
    let r := s.makeSeq
    let messagewrapper := r.2.newWrapper _handlerid _message _timing r.1
    (messagewrapper.postid, r.2.pushBack _handlerid.queue content messagewrapper)

/-- the entries `SingletonMessage` and `FasterMessage` look for -/
def matching (_handlerid : MessageHandler_t) (_message : Message) (it : MessageWrapper) : Bool :=
  it.postid.reg == _handlerid && it.message.same _message

def singletonMessage (_replace : Bool) (_handlerid : MessageHandler_t) (_message : Message)
    (_timing : MessageTiming) (s : State) : MessagePost_t × State :=
  match s.map _handlerid.queue with
  | none => (KNullPost, s)
  | some content =>
    match content.lst_message.find? (matching _handlerid _message) with
    | some it =>
      if _replace then
        let lst := content.lst_message.eraseP (matching _handlerid _message)
        let s := s.erase _handlerid.queue content lst it .replace
        let content := { content with lst_message := lst }
        -- `0 != post_id.seq ? post_id.seq : __MakeSeq()`
        let r := if it.postid.seq ≠ 0 then (it.postid.seq, s) else s.makeSeq
        let messagewrapper := r.2.newWrapper _handlerid _message _timing r.1
        (messagewrapper.postid, r.2.pushBack _handlerid.queue content messagewrapper)
      else (it.postid, s)
    | none =>
      let r := s.makeSeq
      let messagewrapper := r.2.newWrapper _handlerid _message _timing r.1
      (messagewrapper.postid, r.2.pushBack _handlerid.queue content messagewrapper)

def broadcastMessage (_messagequeueid : MessageQueue_t) (_message : Message)
    (_timing : MessageTiming) (s : State) : MessagePost_t × State :=
  match s.map _messagequeueid with
  | none => (KNullPost, s)
  | some content =>
    let r := s.makeSeq
    let messagewrapper := r.2.newWrapper ⟨_messagequeueid, 0⟩ _message _timing r.1
    (messagewrapper.postid, r.2.pushBack _messagequeueid content messagewrapper)

/-- `gettickspan` at the clock `now` -/
def gettickspan (now _old_tick : UInt64) : Int64 :=
  if now < _old_tick then 0 else (now - _old_tick).toInt64

/-- `a - b`, none where it overflows -/
def difference (a b : Int64) : Option Int64 :=
  if -2 ^ 63 ≤ a.toInt - b.toInt ∧ a.toInt - b.toInt < 2 ^ 63 then some (a - b) else none

/-- `__ComputerWaitTime` at the clock `now` -/
def computerWaitTime (now : UInt64) (_wrap : MessageWrapper) : Option Int64 :=
  let time_cost := gettickspan now _wrap.record_time
  let wait_time := match _wrap.timing.type, _wrap.periodstatus with
    | .kImmediately, _ => some 0
    | .kAfter, _ => difference _wrap.timing.after time_cost
    | .kPeriod, .kAfter => difference _wrap.timing.after time_cost
    | .kPeriod, .kPeriod => difference _wrap.timing.period time_cost
    | .kPeriod, .kImmediately => some 0
  wait_time.map fun wait_time => if 0 < wait_time then wait_time else 0

/-- `__ComputerWaitTime(**it) < __ComputerWaitTime(*messagewrapper)` -/
def sooner (now : UInt64) (it messagewrapper : MessageWrapper) : Option Bool :=
  (computerWaitTime now it).bind fun a =>
    (computerWaitTime now messagewrapper).map fun b => decide (a < b)

def fasterMessage (_handlerid : MessageHandler_t) (_message : Message) (_timing : MessageTiming)
    (s : State) : Option (MessagePost_t × State) :=
  match s.map _handlerid.queue with
  | none => some (KNullPost, s)
  | some content =>
    let r := s.makeSeq
    let s := r.2
    let messagewrapper := s.newWrapper _handlerid _message _timing r.1
    match content.lst_message.find? (matching _handlerid _message) with
    | some it =>
      (sooner s.now it messagewrapper).map fun kept =>
        if kept then (it.postid, s)
        else
          let messagewrapper := { messagewrapper with postid := it.postid }
          let lst := content.lst_message.eraseP (matching _handlerid _message)
          let s := s.erase _handlerid.queue content lst it .replace
          (messagewrapper.postid,
            s.pushBack _handlerid.queue { content with lst_message := lst } messagewrapper)
    | none => some (messagewrapper.postid, s.pushBack _handlerid.queue content messagewrapper)

/-! ## cancelling -/

def cancelMessage (_postid : MessagePost_t) (s : State) : Bool × State :=
  if _postid.reg.queue = 0 ∨ _postid.seq = 0 then (false, s)
  else
    match s.map _postid.reg.queue with
    | none => (false, s)
    | some content =>
      match content.lst_message.find? (fun it => _postid == it.postid) with
      | none => (false, s)
      | some it => (true, s.erase _postid.reg.queue content
          (content.lst_message.eraseP (fun it => _postid == it.postid)) it .cancelPost)

def cancelMessageOfHandler (_handlerid : MessageHandler_t) (s : State) : State :=
  if _handlerid.queue = 0 then s
  else
    match s.map _handlerid.queue with
    | none => s
    | some content => s.eraseWhere _handlerid.queue content
        (fun it => _handlerid == it.postid.reg) .cancelHandler [] content.lst_message

def cancelMessageOfTitle (_handlerid : MessageHandler_t) (_title : UInt64) (s : State) : State :=
  if _handlerid.queue = 0 then s
  else
    match s.map _handlerid.queue with
    | none => s
    | some content => s.eraseWhere _handlerid.queue content
        (fun it => _handlerid == it.postid.reg && _title == it.message.title) .cancelTitle []
        content.lst_message

def breakMessageQueueRunloop (_messagequeueid : MessageQueue_t) (s : State) : State :=
  match s.map _messagequeueid with
  | none => s
  | some content => s.setQueue _messagequeueid (some { content with breakflag := true })

/-! ## queries -/

/-- `CurrentThreadMessageQueue` on the thread `t` -/
def currentThreadMessageQueue (t : Thread) (s : State) : MessageQueue_t :=
  if (s.map t).isSome then t else KInvalidQueueID

def foundMessage (_message : MessagePost_t) (s : State) : Bool :=
  match s.map _message.reg.queue with
  | none => false
  | some content =>
    if content.lst_runloop_info = [] then false
    else content.lst_runloop_info.any (fun v => _message == v.runing_message_id) ||
      content.lst_message.any (fun it => _message == it.postid)

/-- `RunningMessageID(_id)`; `RunningMessageID()` is the one for the own thread -/
def runningMessageID (_id : MessageQueue_t) (s : State) : Option MessagePost_t :=
  match s.map _id with
  | none => some KNullPost
  | some content => content.lst_runloop_info.getLast?.map (·.runing_message_id)

/-- `RunningMessage` on the thread `t`: the address of the message, or none for `KNullMessage` -/
def runningMessage (t : Thread) (s : State) : Option (Option Nat) :=
  match s.map t with
  | none => some none
  | some content => content.lst_runloop_info.getLast?.map (·.runing_message)

/-- what `WaitForRunningLockEnd` is called with -/
inductive Target where
  | post (_message : MessagePost_t)
  | queue (_messagequeueid : MessageQueue_t)
  | handler (_handler : MessageHandler_t)

def Target.ofQueue : Target → MessageQueue_t
  | .post m => m.reg.queue
  | .queue q => q
  | .handler h => h.queue

/-- the condition `WaitForRunningLockEnd` sleeps on, `some none` when it returns at once -/
def waitForRunningLockEnd (t : Thread) (x : Target) (s : State) : Option (Option Nat) :=
  if x.ofQueue = s.currentThreadMessageQueue t then some none
  else
    match s.map x.ofQueue with
    | none => some none
    | some content =>
      if content.lst_runloop_info = [] then some none
      else match x with
        | .post m => some ((content.lst_runloop_info.find?
            (fun v => m == v.runing_message_id)).map (·.runing_cond))
        | .queue _ => content.lst_runloop_info.head?.map (fun v =>
            if KNullPost = v.runing_message_id then none else some v.runing_cond)
        | .handler h => some ((content.lst_runloop_info.find?
            (fun v => v.runing_handler.contains h)).map (·.runing_cond))

end State
end MessageQueue
