import LearnDiary.Lib.Runs
import LearnDiary.MessageQueue.State

/-!
# `Alarm` (comm/alarm.h, alarm.cc, unix/thread/thread.h)

`Start`, `Cancel` and `OnAlarm` are one section under `sg_lock` each.  `OnAlarm` is called by the
loop of the default queue, with a broadcast, and by the loop of the queue of `reg_async_`, with the
message the first call has posted there; `Thread::start` is one section under `splock`.

A message that waits may be the next one taken, whatever its timing is; the queue of `reg_async_`
goes on.  `sg_seq` is an `int64_t`, whose overflow is undefined, and an `Int` here.

* `start`, `cancel`, `onAlarm`   the functions of the class;
* `step`                         one section of some thread.
-/

namespace Alarm
open MessageQueue (MessageQueue_t)

def KALARM_MESSAGETITLE : UInt64 := 0x1F1FF
def MAX_LOCK_TIME : Int64 := 5000
def INVAILD_SEQ : Int := 0

inductive Status where
  | kInit
  | kStart
  | kCancel
  | kOnAlarm
deriving DecidableEq

structure Message where
  title : UInt64
  body1 : Int
deriving DecidableEq

/-- what is posted to `reg_async_`: `OnAlarm` with its message, or `__Run`, which carries nothing in
the code; `seq` is the number it was posted for -/
inductive Async where
  | onAlarm (_message : Message)
  | run (seq : Int)
deriving DecidableEq

/-- `runthread_`, from `pthread_create` over `target->run()` to `cleanup`; `isended` is what
`ended` says.  `seq` is the firing it was created for. -/
inductive RunThread where
  | ended
  | created (seq : Int)
  | running (seq : Int)
  | leaving
deriving DecidableEq

inductive Event where
  /-- `Start` has come to its end -/
  | started (seq : Int)
  /-- `Cancel` has returned -/
  | cancelled
  /-- `status_ = kOnAlarm` -/
  | fired (seq : Int)
  /-- `__Run` is posted -/
  | posted (seq : Int)
  | taken (m : Async)
  /-- `target_->run()` is called -/
  | ran (seq : Int)
deriving DecidableEq

/-- the queue of `reg_async_`, the default queue and the build -/
structure Setup where
  reg_async_ : MessageQueue_t
  defMessageQueue : MessageQueue_t
  inthread_ : Bool
  android : Bool

/-- `broadcasts` are the messages in front of an `OnAlarm` on the default queue, `async` those in the
list of the queue of `reg_async_`, `taken` those its loop has picked and not yet called, `executing`
the runs of the target on that queue; `log` has the newest event first -/
structure State where
  sg_seq : Int := 1
  seq_ : Int := 0
  status_ : Status := .kInit
  after_ : Int32 := 0
  starttime_ : UInt64 := 0
  endtime_ : UInt64 := 0
  runthread_ : RunThread := .ended
  broadcasts : List Message := []
  async : List Async := []
  taken : List Async := []
  executing : List Int := []
  log : List Event := []

/-- the clock, and what the calls of `Start` come to; `picked` is that the broadcast has left its
list before it is cancelled -/
structure StartCalls where
  starttime : UInt64 := 0
  posted : Bool := true
  startAlarm : Bool := true
  picked : Bool := false

structure CancelCalls where
  endtime : UInt64 := 0
  stopAlarm : Bool := true

/-- the clock, and what the calls of `OnAlarm` come to -/
structure AlarmCalls where
  curtime : UInt64 := 0
  posted : Bool := true
  startAlarm : Bool := false
  created : Bool := true

namespace State

def emit (e : Event) (s : State) : State := { s with log := e :: s.log }

/-- `sg_seq++`, which never gives `INVAILD_SEQ` -/
def makeSeq (s : State) : Int × State :=
  let sg_seq := if s.sg_seq = INVAILD_SEQ then 1 else s.sg_seq
  (sg_seq, { s with sg_seq := sg_seq + 1 })

def broadcastMessage (m : Message) (s : State) : State :=
  { s with broadcasts := s.broadcasts ++ [m] }

/-- `MessageQueue::AsyncInvoke` to `reg_async_` -/
def asyncInvoke (m : Async) (s : State) : State := { s with async := s.async ++ [m] }

/-- `Alarm::Start` -/
def start (su : Setup) (_after : Int32) (o : StartCalls) (s : State) : Bool × State :=
  if s.seq_ ≠ INVAILD_SEQ then (false, s)
  else
    let r := s.makeSeq
    let message : Message := ⟨KALARM_MESSAGETITLE, r.1⟩
    if !o.posted then (false, r.2)
    else if su.android && !o.startAlarm then
      (false, if o.picked then r.2.broadcastMessage message else r.2)
    else
      (true, ({ r.2.broadcastMessage message with
        status_ := .kStart, starttime_ := o.starttime, endtime_ := 0
        after_ := _after, seq_ := r.1 }).emit (.started r.1))

/-- `Alarm::Cancel`; `CancelMessage(reg_async_.Get())` empties the list -/
def cancel (su : Setup) (o : CancelCalls) (s : State) : Bool × State :=
  let s := { s with async := [] }
  if s.seq_ = INVAILD_SEQ then (true, s.emit .cancelled)
  else
    (!(su.android && !o.stopAlarm),
      ({ s with status_ := .kCancel, endtime_ := o.endtime, seq_ := INVAILD_SEQ }).emit .cancelled)

/-- the part of `OnAlarm` under `ANDROID`: it waits on, with a wake lock or a new alarm -/
def early (o : AlarmCalls) (s : State) : Bool :=
  let elapseTime := (o.curtime - s.starttime_).toInt64
  let missTime := s.after_.toInt64 - elapseTime
  0 < missTime && (missTime ≤ MAX_LOCK_TIME || o.startAlarm)

/-- `Thread::start`; without a thread (`pthread_create`) it leaves `isended` as it was -/
def threadStart (seq : Int) (created : Bool) (s : State) : State :=
  match s.runthread_ with
  | .ended => if created then { s with runthread_ := .created seq } else s
  | _ => s

/-- the end of `OnAlarm`.  The `AsyncInvoke` is one to the own queue, which is there while its loop
runs. -/
def fire (su : Setup) (o : AlarmCalls) (s : State) : State :=
  let seq := s.seq_
  let s := ({ s with status_ := .kOnAlarm, seq_ := INVAILD_SEQ, endtime_ := o.curtime }).emit
    (.fired seq)
  if su.inthread_ then s.threadStart seq o.created
  else (s.asyncInvoke (.run seq)).emit (.posted seq)

/-- `Alarm::OnAlarm` in the loop of the queue `cur` -/
def onAlarm (su : Setup) (cur : MessageQueue_t) (_message : Message) (o : AlarmCalls) (s : State) :
    State :=
  if _message.title ≠ KALARM_MESSAGETITLE then s
  else if cur ≠ su.reg_async_ then
    if o.posted then s.asyncInvoke (.onAlarm _message) else s
  else if s.seq_ ≠ _message.body1 then s
  else if su.android && s.early o then s
  else s.fire su o

/-- `target_->run()` begins on the queue of `reg_async_` -/
def run (seq : Int) (s : State) : State :=
  ({ s with executing := seq :: s.executing }).emit (.ran seq)

/-- `IsWaiting` -/
def isWaiting (s : State) : Bool := s.status_ == .kStart

end State

/-- `broadcast` is a call of `OnAlarm` by the default queue; `take` and `dispatch` are the loop of
the queue of `reg_async_`, `finish` the end of a target there; the last three are `runthread_`.
`otherStart` is the `Start` of an other `Alarm`; Java gives back the numbers it was given (`jni`),
and broadcasts under other titles are `foreign`. -/
inductive Action where
  | start (_after : Int32) (o : StartCalls)
  | cancel (o : CancelCalls)
  | otherStart (posted : Bool)
  | jni (id : Int)
  | foreign (m : Message)
  | broadcast (m : Message) (o : AlarmCalls)
  | take (m : Async)
  | dispatch (m : Async) (o : AlarmCalls)
  | finish (seq : Int)
  | init
  | targetEnd
  | cleanup

/-- the rest of the program: it draws numbers and broadcasts -/
def others (su : Setup) (s : State) : Action → Option State
  | .otherStart posted =>
    let r := s.makeSeq
    some (if posted then r.2.broadcastMessage ⟨KALARM_MESSAGETITLE, r.1⟩ else r.2)
  | .jni id =>
    if su.android && 0 < id && id < s.sg_seq then
      some (s.broadcastMessage ⟨KALARM_MESSAGETITLE, id⟩)
    else none
  | .foreign m => if m.title ≠ KALARM_MESSAGETITLE then some (s.broadcastMessage m) else none
  | _ => none

/-- `start_routine` of `runthread_` -/
def routine (s : State) : Action → Option State
  | .init =>
    match s.runthread_ with
    | .created seq => some (({ s with runthread_ := .running seq }).emit (.ran seq))
    | _ => none
  | .targetEnd =>
    match s.runthread_ with
    | .running _ => some { s with runthread_ := .leaving }
    | _ => none
  | .cleanup => if s.runthread_ = .leaving then some { s with runthread_ := .ended } else none
  | _ => none

/-- the call the loop of `reg_async_` makes for a message -/
def State.call (su : Setup) (o : AlarmCalls) (s : State) : Async → State
  | .onAlarm m => s.onAlarm su su.reg_async_ m o
  | .run seq => s.run seq

def step (su : Setup) (s : State) : Action → Option State
  | .start _after o => some (s.start su _after o).2
  | .cancel o => some (s.cancel su o).2
  | .broadcast m o =>
    if m ∈ s.broadcasts then
      some (({ s with broadcasts := s.broadcasts.erase m }).onAlarm su su.defMessageQueue m o)
    else none
  | .take m =>
    if m ∈ s.async then
      some (({ s with async := s.async.erase m, taken := m :: s.taken }).emit (.taken m))
    else none
  | .dispatch m o =>
    if m ∈ s.taken then some (({ s with taken := s.taken.erase m }).call su o m) else none
  | .finish seq =>
    if seq ∈ s.executing then some { s with executing := s.executing.erase seq } else none
  | .otherStart posted => others su s (.otherStart posted)
  | .jni id => others su s (.jni id)
  | .foreign m => others su s (.foreign m)
  | .init => routine s .init
  | .targetEnd => routine s .targetEnd
  | .cleanup => routine s .cleanup

/-- a fresh `Alarm` -/
def init : State := {}

def Reachable (su : Setup) (s : State) : Prop := Runs.AnyRun (step su) init s

end Alarm
