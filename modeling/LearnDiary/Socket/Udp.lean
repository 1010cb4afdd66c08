import LearnDiary.Base.AutoBuffer
import LearnDiary.Socket.SocketPoll
import LearnDiary.Thread.Reference

/-!
# `UdpClient` and `UdpServer` (comm/socket/udpclient.cc, comm/socket/udpserver.cc)

The threads that call `SendAsync` and the thread of `__RunLoop`.  The two classes differ in what a
datagram holds beside its bytes: nothing for `UdpClient`, a `sockaddr_in` for `UdpServer`, whose
constructor also starts the thread.  `mutex_` is held over several steps only by `SendAsync`;
`event_` is set and the object is not destroyed.

* `step_effect`   what a step does.
-/

namespace Udp
open Runs

def has (revents bits : BitVec 16) : Bool := revents &&& bits != 0

/-- how `Select` ends: with an error, or with the events of the breaker and of the socket -/
inductive Selected where
  | failed
  | ready (breaker socket : BitVec 16)
deriving DecidableEq

/-- what follows in `__DoSelect` -/
inductive Does where
  | returns (ret : Int)
  | sendto
  | recvfrom
deriving DecidableEq

/-- `__DoSelect` behind `Select`, which has no time-out -/
def Selected.does : Selected → Does
  | .failed => .returns (-1)
  | .ready b f =>
    if has b (POLLERR ||| POLLNVAL) then .returns (-1)
    else if has b POLLIN then .returns (-2)
    else if has f (POLLERR ||| POLLNVAL) then .returns (-1)
    else if has f POLLOUT then .sendto
    else if has f (POLLIN ||| POLLHUP) then .recvfrom
    else .returns (-1)

/-- what the system's `poll` can give: it tells of what it is asked for and of the three that nobody
asks for, and there is something to read in the breaker exactly where it says so -/
def Selected.possible (readable bWriteSet : Bool) : Selected → Bool
  | .failed => true
  | .ready b f =>
    (b != 0 || f != 0) && has b POLLIN == readable &&
      !has f (~~~((if bWriteSet then POLLOUT else POLLIN) ||| POLLERR ||| POLLHUP ||| POLLNVAL))

/-- `UdpSendData` and `UdpServerSendData`; `number` is that of the call -/
structure UdpSendData (ν : Type*) where
  addr : ν
  data : AutoBuffer
  number : Nat

/-- what `sendto` is given -/
def UdpSendData.message {ν : Type*} (d : UdpSendData ν) : ν × Bytes := (d.addr, d.data.data)

/-- where the thread of `__RunLoop` stands; `buf` is what is to be sent, none for `readBuffer` -/
inductive Pc (ν : Type*) where
  | idle
  | starting
  | head
  | select (buf : Option (ν × Bytes))
  /-- `Select` has still to clear the breaker -/
  | clear (buf : Option (ν × Bytes)) (o : Selected)
  | test (buf : Option (ν × Bytes)) (o : Selected)
  | pop
  | error
  /-- `OnError` is called, and the thread will end -/
  | left
deriving DecidableEq

/-- the next step of a call of `SendAsync` that has appended its datagram -/
inductive Call where
  | test
  | start
  | poke
deriving DecidableEq

structure State (ν : Type*) where
  fd_socket_ : Int
  breaker_ : SocketBreaker
  list_buffer_ : List (UdpSendData ν) := []
  thread_ : Thread.RunnableReference := {}
  /-- the call of `SendAsync` that holds `mutex_` -/
  call : Option Call := none
  pc : Pc ν := .idle
  /-- the datagrams of the calls, in the order they took `mutex_` -/
  calls : List (ν × Bytes) := []
  sent : List (ν × Bytes) := []
  /-- how many calls there were at the last `OnError` -/
  errors : Nat := 0

inductive Act (ν : Type*) where
  /-- `SendAsync` takes `mutex_` and appends -/
  | SendAsync (_addr : ν) (_buf : Bytes)
  /-- `thread_->isruning()` -/
  | test
  /-- `thread_->start()` -/
  | start (created : Option Nat)
  /-- `breaker_.Break()`, and `SendAsync` is done -/
  | poke
  /-- `Break` of the object -/
  | Break
  /-- a thread that was made comes to its loop -/
  | run
  | head
  | select (o : Selected)
  | clear (ret : Int)
  /-- the rest of `__DoSelect`; `io` is what `sendto` or `recvfrom` gives -/
  | go (io : Int)
  | pop
  | OnError
  | ends

section
variable {ν : Type*}

namespace State

/-- `list_buffer_.push_back(UdpSendData())` and `data.Write(_buf, _len)` -/
def push (s : State ν) (_addr : ν) (_buf : Bytes) : State ν :=
  { s with
    list_buffer_ := s.list_buffer_ ++ [⟨_addr, AutoBuffer.new.write _buf, s.calls.length⟩]
    calls := s.calls ++ [(_addr, _buf)]
    call := some .test }

/-- `start` of the thread, which is not running -/
def start (s : State ν) (created : Option Nat) : State ν :=
  { s with
    thread_ := s.thread_.start false created
    pc := if created.isSome then .starting else s.pc
    call := some .poke }

/-- a `Break` whose `write` succeeds -/
def poke (s : State ν) (call : Option Call) : State ν :=
  { s with breaker_ := (s.breaker_.break_ 1).1, call }

def clear (s : State ν) (buf : Option (ν × Bytes)) (o : Selected) (ret : Int) : State ν :=
  { s with breaker_ := (s.breaker_.clear ret).1, pc := .test buf o }

def goto (s : State ν) (pc : Pc ν) : State ν := { s with pc }

def calling (s : State ν) (call : Call) : State ν := { s with call := some call }

/-- where `__RunLoop` goes with what `__DoSelect` returns -/
def returned (s : State ν) (bWriteSet : Bool) (ret : Int) : State ν :=
  s.goto (if ret = -1 then .error else if ret = -2 then .head else if bWriteSet then .pop else .head)

/-- the datagram is out -/
def sends (s : State ν) (buf : Option (ν × Bytes)) : State ν :=
  { s with sent := s.sent ++ buf.toList }

def popped (s : State ν) : State ν := { s with list_buffer_ := s.list_buffer_.tail, pc := .head }

def failed (s : State ν) : State ν := { s with errors := s.calls.length, pc := .left }

def ended (s : State ν) : State ν := { s with thread_ := s.thread_.cleanup, pc := .idle }

end State

def step (s : State ν) : Act ν → Option (State ν)
  | .SendAsync _addr _buf =>
    -- `INVALID_SOCKET`
    if s.fd_socket_ = -1 then some s
    else match s.call with
      | none => some (s.push _addr _buf)
      | some _ => none
  | .test =>
    match s.call with
    | some .test => some (s.calling (if s.thread_.isruning then .poke else .start))
    | _ => none
  | .start created =>
    match s.call with
    | some .start => some (if s.thread_.isruning then s.calling .poke else s.start created)
    | _ => none
  | .poke =>
    match s.call with
    | some .poke => some (s.poke none)
    | _ => none
  | .Break => some (s.poke s.call)
  | .run =>
    match s.pc with
    | .starting =>
      some ({ s with thread_ := s.thread_.init }.goto (if s.fd_socket_ = -1 then .left else .head))
    | _ => none
  | .head =>
    match s.pc, s.call with
    | .head, none => some (s.goto (.select (s.list_buffer_.head?.map UdpSendData.message)))
    | _, _ => none
  | .select o =>
    match s.pc with
    | .select buf => if o.possible s.breaker_.readable buf.isSome then some (s.goto (.clear buf o)) else none
    | _ => none
  | .clear ret =>
    match s.pc with
    | .clear buf o => if s.breaker_.canRead ret then some (s.clear buf o ret) else none
    | _ => none
  | .go io =>
    match s.pc with
    | .test buf o =>
      match o.does with
      | .returns ret => some (s.returned buf.isSome ret)
      | .sendto =>
        if io = -1 then some (s.returned buf.isSome io)
        else if 0 ≤ io then some ((s.sends buf).returned buf.isSome io)
        else none
      | .recvfrom => if io = -1 ∨ 0 ≤ io then some (s.returned buf.isSome io) else none
    | _ => none
  | .pop =>
    match s.pc, s.call with
    | .pop, none => some s.popped
    | _, _ => none
  | .OnError =>
    match s.pc with
    | .error => some s.failed
    | _ => none
  | .ends =>
    match s.pc with
    | .left => some s.ended
    | _ => none

/-- an object whose breaker has the pipe `p`, `q`; `started` is how the start of its thread goes -/
def State.new (fd_socket_ : Int) (p q : Nat) (started : Option (Option Nat)) : State ν :=
  { fd_socket_
    breaker_ := .new (.made p q)
    thread_ := match started with
      | some created => ({} : Thread.RunnableReference).start false created
      | none => {}
    pc := if started.any Option.isSome then .starting else .idle }

/-- the constructor of `UdpClient` with an event; the thread starts with the first `SendAsync` -/
def UdpClient.new (fd_socket_ : Int) (p q : Nat) : State Unit := .new fd_socket_ p q none

/-- the constructor of `UdpServer`; `created` is what `pthread_create` gives -/
def UdpServer.new (fd_socket_ : Int) (p q : Nat) (created : Option Nat) : State ν :=
  .new fd_socket_ p q (some created)

/-! ## steps -/

/-- what a step does -/
inductive Effect (s : State ν) : Act ν → State ν → Prop
  | invalid {_addr : ν} {_buf : Bytes} : Effect s (.SendAsync _addr _buf) s
  | pushes {_addr : ν} {_buf : Bytes} : s.fd_socket_ ≠ -1 → s.call = none →
    Effect s (.SendAsync _addr _buf) (s.push _addr _buf)
  | tests {k : Call} : s.call = some .test →
    (if s.thread_.isended then k = .start else k = .poke) → Effect s .test (s.calling k)
  | runs {created : Option Nat} : s.call = some .start → s.thread_.isended = false →
    Effect s (.start created) (s.calling .poke)
  | starts {created : Option Nat} : s.call = some .start → s.thread_.isended = true →
    Effect s (.start created) (s.start created)
  | pokes {a : Act ν} {k : Option Call} : (k = s.call ∨ s.call = some .poke ∧ k = none) →
    Effect s a (s.poke k)
  | begins : s.pc = .starting → Effect s .run
    ({ s with thread_ := s.thread_.init }.goto (if s.fd_socket_ = -1 then .left else .head))
  | heads : s.pc = .head → s.call = none →
    Effect s .head (s.goto (.select (s.list_buffer_.head?.map UdpSendData.message)))
  | selects {buf : Option (ν × Bytes)} {o : Selected} : s.pc = .select buf →
    Effect s (.select o) (s.goto (.clear buf o))
  | clears {buf : Option (ν × Bytes)} {o : Selected} {ret : Int} : s.pc = .clear buf o →
    Effect s (.clear ret) (s.clear buf o ret)
  | sends {buf : Option (ν × Bytes)} {o : Selected} {io : Int} : s.pc = .test buf o → 0 ≤ io →
    Effect s (.go io) ((s.sends buf).returned buf.isSome io)
  | receives {buf : Option (ν × Bytes)} {o : Selected} {io : Int} : s.pc = .test buf o →
    o.does = .recvfrom → Effect s (.go io) (s.returned buf.isSome io)
  | returns {buf : Option (ν × Bytes)} {o : Selected} {io ret : Int} : s.pc = .test buf o →
    ret = -1 ∨ ret = -2 → Effect s (.go io) (s.returned buf.isSome ret)
  | pops : s.pc = .pop → s.call = none → Effect s .pop s.popped
  | fails : s.pc = .error → Effect s .OnError s.failed
  | ends : s.pc = .left → Effect s .ends s.ended

theorem Selected.does_returns {o : Selected} {ret : Int} (h : o.does = .returns ret) :
    ret = -1 ∨ ret = -2 := by
  cases o with
  | failed =>
    cases h
    exact .inl rfl
  | ready b f =>
    rw [Selected.does] at h
    split_ifs at h <;> cases h
    · exact .inl rfl
    · exact .inr rfl
    · exact .inl rfl
    · exact .inl rfl

variable {s s' : State ν} {a : Act ν}

theorem go_effect {io : Int} (hs : step s (.go io) = some s') : Effect s (.go io) s' := by
  rw [step] at hs
  split at hs
  · rename_i buf o hpc
    split at hs
    · rename_i ret hd
      cases hs
      exact .returns hpc (Selected.does_returns hd)
    · split at hs
      · rename_i hio
        cases hs
        exact .returns hpc (.inl hio)
      · split at hs
        · rename_i hio
          cases hs
          exact .sends hpc hio
        · cases hs
    · rename_i hd
      split at hs
      · cases hs
        exact .receives hpc hd
      · cases hs
  · cases hs

theorem step_effect (hs : step s a = some s') : Effect s a s' := by
  cases a with
  | SendAsync _addr _buf =>
    rw [step] at hs
    split at hs
    · cases hs
      exact .invalid
    · rename_i hfd
      split at hs
      · rename_i hc
        cases hs
        exact .pushes hfd hc
      · cases hs
  | test =>
    rw [step] at hs
    split at hs
    · rename_i hc
      cases hs
      refine .tests hc ?_
      rw [Thread.RunnableReference.isruning]
      cases s.thread_.isended with
      | true => rfl
      | false => rfl
    · cases hs
  | start created =>
    rw [step] at hs
    split at hs
    · rename_i hc
      cases hs
      rw [Thread.RunnableReference.isruning]
      cases he : s.thread_.isended with
      | true => exact .starts hc he
      | false => exact .runs hc he
    · cases hs
  | poke =>
    rw [step] at hs
    split at hs
    · rename_i hc
      cases hs
      exact .pokes (.inr ⟨hc, rfl⟩)
    · cases hs
  | Break =>
    cases hs
    exact .pokes (.inl rfl)
  | run =>
    rw [step] at hs
    split at hs
    · rename_i hpc
      cases hs
      exact .begins hpc
    · cases hs
  | head =>
    rw [step] at hs
    split at hs
    · rename_i hpc hc
      cases hs
      exact .heads hpc hc
    · cases hs
  | select o =>
    rw [step] at hs
    split at hs
    · rename_i buf hpc
      obtain ⟨-, he⟩ := Option.ite_none_right_eq_some.mp hs
      cases he
      exact .selects hpc
    · cases hs
  | clear ret =>
    rw [step] at hs
    split at hs
    · rename_i buf o hpc
      obtain ⟨-, he⟩ := Option.ite_none_right_eq_some.mp hs
      cases he
      exact .clears hpc
    · cases hs
  | go io => exact go_effect hs
  | pop =>
    rw [step] at hs
    split at hs
    · rename_i hpc hc
      cases hs
      exact .pops hpc hc
    · cases hs
  | OnError =>
    rw [step] at hs
    split at hs
    · rename_i hpc
      cases hs
      exact .fails hpc
    · cases hs
  | ends =>
    rw [step] at hs
    split at hs
    · rename_i hpc
      cases hs
      exact .ends hpc
    · cases hs

end
end Udp
