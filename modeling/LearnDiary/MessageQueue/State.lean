import Mathlib.Algebra.Group.Nat.Defs
import Mathlib.Logic.Function.Basic
import Mathlib.Data.List.Basic
import Mathlib.Order.Lattice

/-!
# Message queues: the data (comm/messagequeue/message_queue.h, message_queue.cc)

Ids, messages, wrappers, handlers, the record of a queue and the state they live in: the map of
queues behind `sg_messagequeue_map_mutex`, for every thread the activations of `RunLoop::Run` on
its stack and what it is waiting for, and the history `log`, which no function of the code reads.

A queue is named by the id of its thread.  An object that is compared or freed by its address has
the address as a field (`self`, `runing_cond`); `next` is the next free one.  A `MessageWrapper`
makes its `wait_end_cond` when the first thread comes to wait on it, and nobody waits before that:
`Cond.wait_end a` is that condition of the wrapper at `a`.  `breaker` is left out: the sleep of a
loop may end at any time, as it may with its time-out.
-/

namespace MessageQueue

abbrev MessageQueue_t := UInt64
abbrev Thread := UInt64

def KInvalidQueueID : MessageQueue_t := 0

structure MessageHandler_t where
  queue : MessageQueue_t
  seq : UInt32
deriving DecidableEq

def MessageHandler_t.isbroadcast (h : MessageHandler_t) : Bool := h.seq == 0

structure MessagePost_t where
  reg : MessageHandler_t
  seq : UInt32
deriving DecidableEq

def KNullHandler : MessageHandler_t := ⟨KInvalidQueueID, 0⟩
def KNullPost : MessagePost_t := ⟨KNullHandler, 0⟩

/-- `body1` is the function object of an `AsyncInvoke`, `none` any other body -/
structure Message where
  title : UInt64
  body1 : Option Nat
deriving DecidableEq

/-- `operator ==` of `Message` compares the titles -/
def Message.same (a b : Message) : Bool := a.title == b.title

inductive TMessageTiming where
  | kAfter | kPeriod | kImmediately
deriving DecidableEq

structure MessageTiming where
  type : TMessageTiming
  after : Int64
  period : Int64
deriving DecidableEq

structure MessageWrapper where
  self : Nat
  postid : MessagePost_t
  message : Message
  timing : MessageTiming
  periodstatus : TMessageTiming
  record_time : UInt64
deriving DecidableEq

/-- timing `kImmediately` or `kAfter` -/
def MessageWrapper.oneShot (w : MessageWrapper) : Bool := w.timing.type != .kPeriod

def MessageWrapper.immediate (w : MessageWrapper) : Bool := w.timing.type == .kImmediately

structure HandlerWrapper where
  reg : MessageHandler_t
  handler : Nat
  recvbroadcast : Bool
deriving DecidableEq

structure RunLoopInfo where
  runing_cond : Nat
  runing_message_id : MessagePost_t := KNullPost
  runing_message : Option Nat := none
  runing_handler : List MessageHandler_t := []
deriving DecidableEq

/-- what the head of the loop does to its own entry -/
def RunLoopInfo.clear (i : RunLoopInfo) : RunLoopInfo := { runing_cond := i.runing_cond }

structure MessageQueueContent where
  invoke_reg : MessageHandler_t
  breakflag : Bool := false
  lst_message : List MessageWrapper := []
  lst_handler : List HandlerWrapper := []
  lst_runloop_info : List RunLoopInfo := []

/-! ## threads -/

inductive Cond where
  | wait_end (wrapper : Nat)
  | runing (info : Nat)
deriving DecidableEq

/-- `breaker_func_`: none, one of the user, or the one `WaitMessage` gives its own loop -/
inductive Breaker where
  | none
  | user
  | gone (_message : MessagePost_t)
deriving DecidableEq

/-- where an activation of `RunLoop::Run` is; `running` is the handler it is inside of,
`fit_handler` holds those behind it -/
inductive Pc where
  | head
  | wait (wait_time : Int64)
  | dispatch (messagewrapper : MessageWrapper) (delmessage : Bool) (running : Option HandlerWrapper)
      (fit_handler : List HandlerWrapper)
deriving DecidableEq

/-- `pushed` is the condition of the entry this activation has pushed -/
structure Frame where
  pushed : Nat
  breaker_func_ : Breaker
  pc : Pc
deriving DecidableEq

/-- what a sleeping thread does when it is woken -/
inductive Waiter where
  | waitMessage (_message : MessagePost_t)
  | waitForRunningLockEnd
  | cancelAndWait (_handler : MessageHandler_t)
deriving DecidableEq

/-- where a thread is, outside of its loops: `entering` a loop, or back from the loop of a
`WaitMessage` (`ran`), in `ScopeRegister::CancelAndWait` behind `UnInstallMessageHandler` or behind
`CancelMessage`, or asleep -/
inductive Ctl where
  | free
  | entering (breaker : Breaker)
  | ran (_message : MessagePost_t)
  | uninstalled (_handler : MessageHandler_t)
  | cancelled (_handler : MessageHandler_t)
  | blocked (cond : Cond) (woken : Bool) (waiter : Waiter)
deriving DecidableEq

def Ctl.notify (c : Cond) : Ctl → Ctl
  | .blocked cond woken waiter => .blocked cond (woken || cond == c) waiter
  | k => k

/-! ## the history -/

/-- why a wrapper leaves the list without being picked -/
inductive Why where
  | cancelPost
  | cancelHandler
  | cancelTitle
  | replace
  | release
deriving DecidableEq

inductive Event where
  | draw (seq : UInt32)
  | create (q : MessageQueue_t)
  | release (q : MessageQueue_t)
  | install (h : HandlerWrapper)
  | uninstall (h : HandlerWrapper)
  | enqueue (w : MessageWrapper)
  | remove (w : MessageWrapper) (why : Why)
  | pick (w : MessageWrapper) (fit_handler : List HandlerWrapper)
  | idle (q : MessageQueue_t)
  | invoke (w : MessageWrapper) (h : HandlerWrapper)
  | destroy (w : MessageWrapper)
  | waited (t : Thread) (_message : MessagePost_t)
  | cancelWaited (t : Thread) (_handler : MessageHandler_t)
deriving DecidableEq

/-- `frames` and `log` have the newest entry first -/
structure State where
  now : UInt64 := 0
  s_seq : UInt32 := 0
  next : Nat := 1
  map : MessageQueue_t → Option MessageQueueContent := fun _ => none
  frames : Thread → List Frame := fun _ => []
  ctl : Thread → Ctl := fun _ => .free
  log : List Event := []

namespace State

def emit (e : Event) (s : State) : State := { s with log := e :: s.log }

def setQueue (q : MessageQueue_t) (c : Option MessageQueueContent) (s : State) : State :=
  { s with map := Function.update s.map q c }

def setFrames (t : Thread) (l : List Frame) (s : State) : State :=
  { s with frames := Function.update s.frames t l }

def setCtl (t : Thread) (k : Ctl) (s : State) : State :=
  { s with ctl := Function.update s.ctl t k }

/-- `notifyAll` of a condition; a thread that is not asleep on it misses it -/
def notifyAll (c : Cond) (s : State) : State := { s with ctl := fun t => (s.ctl t).notify c }

/-- the entries of `lst_message`, none without a queue -/
def pending (s : State) (q : MessageQueue_t) : List MessageWrapper :=
  (s.map q).elim [] (·.lst_message)

def installed (s : State) (q : MessageQueue_t) : List HandlerWrapper :=
  (s.map q).elim [] (·.lst_handler)

def infos (s : State) (q : MessageQueue_t) : List RunLoopInfo :=
  (s.map q).elim [] (·.lst_runloop_info)

end State

end MessageQueue
