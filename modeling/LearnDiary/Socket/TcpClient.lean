import LearnDiary.Base.Buffers
import LearnDiary.Socket.TcpClientFsm
import Mathlib.Data.List.Forall2

/-!
# `TcpClient` (comm/socket/tcpclient.cc)

Threads that write and the run thread of the socket.  A call of `Write` checks the status, and then
pushes its buffer under `write_mutex_`; the run thread asks for the sets, selects, sends and tells of
what was written, and lets go of the lock while it does that.  What the system gives is part of a
step.

* `Inv`           the buffers of the queue are those not taken out yet, sent up to the cursor;
* `step_inv`      every step keeps that;
* `write_stream`  what goes out on the wire and what is told, in every run.
-/

namespace Tcp
open Runs

inductive TTcpStatus where
  | kTcpInit
  | kTcpInitErr
  | kSocketThreadStart
  | kSocketThreadStartErr
  | kTcpConnecting
  | kTcpConnectIpErr
  | kTcpConnectingErr
  | kTcpConnectTimeoutErr
  | kTcpConnected
  | kTcpIOErr
  | kTcpDisConnectedbyRemote
  | kTcpDisConnected
deriving DecidableEq

/-- a call to the observer, a write that has its id, and bytes that `send` took -/
inductive Event where
  | OnConnect
  | OnDisConnect (_isremote : Bool)
  | OnError (_status : TTcpStatus) (_errcode : Int)
  | OnWrote (_id _len : Nat)
  | OnAllWrote
  | OnRead
  | written (_buf : Bytes) (writedbufid_ : Nat)
  | sent (bytes : Bytes)
deriving DecidableEq

inductive Pc where
  | starting
  | head
  | select (read write : Bool)
  | reading (write : Bool)
  | writing
  | wrote (len : Nat)
  | told
  | ended
deriving DecidableEq

/-- `calls` are the buffers of the threads inside `Write` that wait for the lock -/
structure TcpClient where
  status_ : TTcpStatus := .kTcpInit
  will_disconnect_ : Bool := false
  have_read_data_ : Bool := false
  writedbufid_ : Nat := 0
  lst_buffer_ : List RawBuffer := []
  calls : Nat → Option (Bytes × RawBuffer) := fun _ => none
  pc : Pc := .starting
  write_id : Nat := 0
  log : List Event := []

/-- how the part of `__Run` before the loop goes; the wait for the connection is not interrupted -/
inductive Opens where
  | failed (_status : TTcpStatus) (errno : Int)
  | connected
deriving DecidableEq

inductive Selects where
  | zero
  | failed (errno : Int)
  | sets (exception : Option Int) (read write : Bool)
deriving DecidableEq

/-- `recv` of one byte that stays -/
inductive Peek where
  | data
  | closed
  | again
  | failed (errno : Int)
deriving DecidableEq

inductive Action where
  /-- `Write` up to the lock, by the thread `tid` -/
  | write (tid : Nat) (_buf : Bytes) (fresh : Nat → UInt8)
  /-- `WritePostData` up to the lock -/
  | writePostData (tid : Nat) (_buf : Bytes)
  /-- either one under `write_mutex_` -/
  | push (tid : Nat)
  | read
  | disconnect
  | connect (ret : Int)
  | run
  | opens (o : Opens)
  | selects (o : Selects)
  | peeks (o : Peek)
  | sends (o : SendResult) (errno : Int)

namespace TcpClient

def emit (s : TcpClient) (e : Event) : TcpClient := { s with log := s.log ++ [e] }

/-- the run thread leaves `__Run` -/
def stop (s : TcpClient) (status_ : TTcpStatus) (e : Event) : TcpClient :=
  { s with status_, pc := .ended }.emit e

def enter (s : TcpClient) (tid : Nat) (_buf : Bytes) (tmpbuff : RawBuffer) : TcpClient :=
  { s with calls := fun t => if t = tid then some (_buf, tmpbuff) else s.calls t }

end TcpClient

/-- a status the part before the loop may fail with -/
def TTcpStatus.opening : TTcpStatus → Bool
  | .kTcpConnectIpErr | .kTcpConnectingErr | .kTcpConnectTimeoutErr => true
  | _ => false

/-- `__Run` up to its loop -/
def opens (s : TcpClient) (o : Opens) : Option TcpClient :=
  match s.pc, s.status_, o with
  | .starting, .kTcpConnecting, .failed status_ errno =>
    if status_.opening then some (s.stop status_ (.OnError status_ errno)) else none
  | .starting, .kTcpConnecting, .connected =>
    if s.will_disconnect_ then some (s.stop .kTcpDisConnected (.OnDisConnect false))
    else some ({ s with status_ := .kTcpConnected, pc := .head }.emit .OnConnect)
  | _, _, _ => none

/-- what follows `Select` in the loop, up to the read part -/
def selects (s : TcpClient) (o : Selects) : Option TcpClient :=
  match s.pc, o with
  | .select _ _, .zero => some { s with pc := .head }
  | .select _ _, .failed errno => some (s.stop .kTcpIOErr (.OnError .kTcpIOErr errno))
  | .select r w, .sets exception read write =>
    if (read && !r) || (write && !w) then none
    else if s.will_disconnect_ then some (s.stop .kTcpDisConnected (.OnDisConnect false))
    else
      match exception with
      | some error_opt => some (s.stop .kTcpIOErr (.OnError .kTcpIOErr error_opt))
      | none =>
        some { s with pc := if read then .reading write else if write then .writing else .head }
  | _, _ => none

/-- the read part, with the write set behind it -/
def peek (s : TcpClient) (write : Bool) : Peek → TcpClient
  | .data =>
    { s with have_read_data_ := true, pc := if write then .writing else .head }.emit .OnRead
  | .closed => { s with have_read_data_ := false }.stop .kTcpDisConnected (.OnDisConnect true)
  | .again => { s with pc := if write then .writing else .head }
  | .failed errno => s.stop .kTcpIOErr (.OnError .kTcpIOErr errno)

/-- the write part under `write_mutex_`; `front` of an empty list has no outcome, and one `send` takes
less than 2^31 bytes -/
def send (s : TcpClient) (o : SendResult) (errno : Int) : Option TcpClient :=
  match s.lst_buffer_ with
  | [] => none
  | buf :: rest =>
    let len := buf.length_
    if buf.pos_ < len then
      match o with
      | .sent 0 | .failed _ => some (s.stop .kTcpIOErr (.OnError .kTcpIOErr errno))
      | .again => some { s with pc := .head }
      | .sent send_len =>
        if buf.pos_ + send_len ≤ len ∧ send_len < 2 ^ 31 then
          (RawBuffer.load buf.parray_ (toSize buf.pos_) send_len).map fun bytes =>
            { s with lst_buffer_ := buf.seek send_len .ESeekCur :: rest, pc := .head }.emit (.sent bytes)
        else none
    else some { s with lst_buffer_ := rest, pc := .wrote len }

/-- the id is an `int`; past its range there is no outcome -/
def kIntMax : Nat := 2147483647

/-- a new object; `pipe_` may fail -/
def new (isCreateSuc : Bool) : TcpClient := { status_ := if isCreateSuc then .kTcpInit else .kTcpInitErr }

def step (s : TcpClient) : Action → Option TcpClient
  | .write tid _buf fresh =>
    if (s.calls tid).isSome ∨ 2 ^ 32 ≤ _buf.length then none
    else if s.status_ ≠ .kTcpConnected then some s
    else ((RawBuffer.new 128).writeAt fresh 0 _buf).map fun tmpbuff => s.enter tid _buf tmpbuff
  | .writePostData tid _buf =>
    if (s.calls tid).isSome ∨ 2 ^ 32 ≤ _buf.length then none
    else if s.status_ ≠ .kTcpConnected then some s
    else some (s.enter tid _buf ((RawBuffer.new 128).attachBlock _buf))
  | .push tid =>
    match s.calls tid with
    | none => none
    | some (_buf, tmpbuff) =>
      if kIntMax ≤ s.writedbufid_ then none
      else
        some ({ s with
          calls := fun t => if t = tid then none else s.calls t
          lst_buffer_ := s.lst_buffer_ ++ [tmpbuff]
          writedbufid_ := s.writedbufid_ + 1 }.emit (.written _buf (s.writedbufid_ + 1)))
  | .read => if s.status_ ≠ .kTcpConnected then some s else some { s with have_read_data_ := false }
  | .disconnect => some { s with will_disconnect_ := true }
  | .connect ret =>
    if s.status_ ≠ .kTcpInit then some s
    else some { s with status_ := if ret = 0 then .kSocketThreadStart else .kSocketThreadStartErr }
  | .opens o => opens s o
  | .run =>
    match s.pc with
    | .starting =>
      if s.status_ = .kSocketThreadStart then some { s with status_ := .kTcpConnecting } else none
    | .head => some { s with pc := .select (!s.have_read_data_) (!s.lst_buffer_.isEmpty) }
    | .wrote len =>
      some ({ s with write_id := s.write_id + 1, pc := .told }.emit
        (.OnWrote (s.write_id + 1) (len % 2 ^ 32)))
    | .told =>
      if s.lst_buffer_.isEmpty then some ({ s with pc := .head }.emit .OnAllWrote)
      else some { s with pc := .head }
    | _ => none
  | .selects o => selects s o
  | .peeks o =>
    match s.pc with
    | .reading write => some (peek s write o)
    | _ => none
  | .sends o errno =>
    match s.pc with
    | .writing => send s o errno
    | _ => none

/-! ## the buffers -/

/-- the buffer has the bytes `d`, `p` of them in front of the cursor -/
def Holds (b : RawBuffer) (d : Bytes) (p : Nat) : Prop :=
  ∃ t : Tape UInt8, b.Reps t ∧ t.Is d p

section
variable {b : RawBuffer} {d : Bytes} {p n : Nat}

theorem Holds.sizes (h : Holds b d p) : b.length_ = d.length ∧ b.pos_ = p ∧ p ≤ d.length := by
  obtain ⟨t, ⟨c, rfl, rfl, -, -⟩, rfl, rfl⟩ := h
  refine ⟨c.data_length.symm, rfl, ?_⟩
  rw [show c.tape.cells.length = c.length_ from c.data_length]
  exact c.pos_le

theorem Holds.load (h : Holds b d p) (hn : p + n ≤ d.length) (hd : d.length < 2 ^ 32) :
    RawBuffer.load b.parray_ (toSize b.pos_) n = some ((d.drop p).take n) := by
  obtain ⟨hlen, hpos, -⟩ := h.sizes
  have hsize : toSize b.pos_ = p := by
    rw [hpos]
    exact toSize_natCast (by omega)
  obtain ⟨t, ⟨c, rfl, rfl, -, -⟩, rfl, rfl⟩ := h
  have hcap : c.length_ ≤ c.parray_.length := c.length_le
  have hdata : c.data.length = c.length_ := c.data_length
  have hn' : c.pos_ + n ≤ c.data.length := hn
  rw [hsize]
  show RawBuffer.load c.parray_ c.pos_ n = some ((c.data.drop c.pos_).take n)
  rw [RawBuffer.load_of_le (by omega)]
  unfold AutoBuffer.data
  rw [List.drop_take, List.take_take, Nat.min_eq_left (by omega)]

theorem Holds.seek (h : Holds b d p) (hn : p + n ≤ d.length) (hd : d.length < 2 ^ 32) :
    Holds (b.seek n .ESeekCur) d (p + n) := by
  obtain ⟨t, ⟨c, rfl, rfl, hl, hu⟩, rfl, rfl⟩ := h
  have hdata : c.data.length = c.length_ := c.data_length
  have hn' : c.pos_ + n ≤ c.data.length := hn
  have hd' : c.data.length < 2 ^ 32 := hd
  obtain ⟨c', out, hexec, ⟨hspec, -⟩, hl', hu'⟩ := RawBuffer.exec_typed (fun _ => 0) hl hu
    (show RawBuffer.Asserted c.raw (.seek n .ESeekCur) from trivial) ⟨by omega, show (c.pos_ : Int) + n < 2 ^ 63 by omega⟩
  have hraw : c.raw.seek n .ESeekCur = c'.raw := congrArg Prod.fst (Option.some.inj hexec)
  refine ⟨c'.tape, ⟨c', hraw.symm, rfl, hl', hu'⟩, hspec.1, hspec.2.trans ?_⟩
  show min ((c.pos_ : Int) + n).toNat c.data.length = c.pos_ + n
  omega

theorem Holds.write {fresh : Nat → UInt8} (hd : d.length < 2 ^ 32)
    (h : (RawBuffer.new 128).writeAt fresh 0 d = some b) : Holds b d 0 := by
  obtain ⟨c, hc, ht, hl, hu⟩ := RawBuffer.Reps.new (n := 128) (by decide) (by decide)
  rw [← hc] at h
  obtain ⟨c', out, hexec, ⟨hspec, -⟩, hl', hu'⟩ := RawBuffer.exec_typed fresh hl hu
    (show RawBuffer.Asserted c.raw (.writeAt 0 d) from ⟨le_rfl, Nat.zero_le _⟩)
    (show (0 : Int) + d.length < 2 ^ 63 by omega)
  have hraw : c.raw.writeAt fresh 0 d = some c'.raw := by
    obtain ⟨x, hx, he⟩ := Option.map_eq_some_iff.mp hexec
    rw [hx]
    exact congrArg some (congrArg Prod.fst he)
  rw [hraw] at h
  cases h
  rw [← ht] at hspec
  refine ⟨c'.tape, ⟨c', rfl, rfl, hl', hu'⟩, ?_, hspec.2⟩
  rw [hspec.1]
  show [] ++ d ++ List.drop _ [] = d
  rw [List.drop_nil, List.append_nil, List.nil_append]

theorem Holds.attach (hd : d.length < 2 ^ 32) : Holds ((RawBuffer.new 128).attachBlock d) d 0 := by
  obtain ⟨c, hc, ht, hl, hu⟩ := RawBuffer.Reps.new (n := 128) (by decide) (by decide)
  obtain ⟨c', out, hexec, ⟨hspec, -⟩, hl', hu'⟩ := RawBuffer.exec_typed (fun _ => 0) hl hu
    (show RawBuffer.Asserted c.raw (.attachBlock d) from trivial) (show d.length < 2 ^ 63 by omega)
  have hraw : c.raw.attachBlock d = c'.raw := congrArg Prod.fst (Option.some.inj hexec)
  rw [← hc, hraw]
  exact ⟨c'.tape, ⟨c', rfl, rfl, hl', hu'⟩, hspec⟩

end

/-! ## the log -/

/-- the writes in the order they took the lock, with the ids they returned -/
def tickets (log : List Event) : List (Nat × Bytes) :=
  log.filterMap fun
    | .written _buf id => some (id, _buf)
    | _ => none

def wire (log : List Event) : Bytes :=
  (log.filterMap fun
    | .sent bytes => some bytes
    | _ => none).flatten

/-- the calls of `OnWrote` -/
def reported (log : List Event) : List (Nat × Nat) :=
  log.filterMap fun
    | .OnWrote _id _len => some (_id, _len)
    | _ => none

section
variable (log : List Event) (e : Event)

theorem tickets_add : tickets (log ++ [e]) = tickets log ++ tickets [e] := List.filterMap_append

theorem wire_add : wire (log ++ [e]) = wire log ++ wire [e] := by
  unfold wire
  rw [List.filterMap_append, List.flatten_append]

theorem reported_add : reported (log ++ [e]) = reported log ++ reported [e] := List.filterMap_append

end

structure Plain (e : Event) : Prop where
  tickets : tickets [e] = []
  wire : wire [e] = []
  reported : reported [e] = []

/-! ## the queue -/

/-- the buffers hold these bytes, of which `part` are sent -/
inductive Queue : List RawBuffer → List Bytes → Bytes → Prop
  | nil : Queue [] [] []
  | cons {b : RawBuffer} {d : Bytes} {p : Nat} {bs : List RawBuffer} {ds : List Bytes}
      (h : Holds b d p) (hs : List.Forall₂ (fun b d => Holds b d 0) bs ds) :
      Queue (b :: bs) (d :: ds) (d.take p)

theorem Queue.of_fresh {bs : List RawBuffer} {ds : List Bytes}
    (hs : List.Forall₂ (fun b d => Holds b d 0) bs ds) : Queue bs ds [] := by
  cases hs with
  | nil => exact .nil
  | cons h hs => exact .cons h hs

theorem Queue.push {bs : List RawBuffer} {ds : List Bytes} {part : Bytes} {b : RawBuffer} {d : Bytes}
    (h : Queue bs ds part) (hb : Holds b d 0) : Queue (bs ++ [b]) (ds ++ [d]) part := by
  cases h with
  | nil => exact .cons hb .nil
  | cons h hs => exact .cons h (List.rel_append hs (.cons hb .nil))

theorem Queue.length_eq {bs : List RawBuffer} {ds : List Bytes} {part : Bytes} (h : Queue bs ds part) :
    bs.length = ds.length := by
  cases h with
  | nil => rfl
  | cons h hs =>
    rw [List.length_cons, List.length_cons, hs.length_eq]

theorem Queue.part_prefix {bs : List RawBuffer} {ds : List Bytes} {part : Bytes}
    (h : Queue bs ds part) : part <+: ds.flatten := by
  cases h with
  | nil => exact List.prefix_rfl
  | cons h hs => exact (List.take_prefix _ _).trans (List.prefix_append _ _)

/-! ## the invariant -/

/-- the length of a buffer that was taken out and not yet told of -/
def pending (s : TcpClient) : List Nat :=
  match s.pc with
  | .wrote len => [len]
  | _ => []

/-- what `OnWrote` tells of a write -/
def receipt (x : Nat × Bytes) : Nat × Nat := (x.1, x.2.length)

/-- the writes so far: told of, taken out, in the queue -/
structure Shape (s : TcpClient) (front last rest : List (Nat × Bytes)) (part : Bytes) : Prop where
  split : tickets s.log = front ++ last ++ rest
  told : reported s.log = front.map receipt
  count : s.write_id = front.length
  taken : last.map (·.2.length) = pending s
  queue : Queue s.lst_buffer_ (rest.map Prod.snd) part
  sent : wire s.log = ((front ++ last).map Prod.snd).flatten ++ part

def asked : Pc → Bool
  | .select _ write | .reading write => write
  | .writing => true
  | _ => false

structure Inv (s : TcpClient) : Prop where
  nonempty : asked s.pc = true → s.lst_buffer_ ≠ []
  ids : (tickets s.log).map Prod.fst = List.range' 1 s.writedbufid_
  small : ∀ x ∈ tickets s.log, x.2.length < 2 ^ 32
  calls : ∀ tid d b, s.calls tid = some (d, b) → Holds b d 0 ∧ d.length < 2 ^ 32
  shape : ∃ front last rest part, Shape s front last rest part

section
variable {s s' : TcpClient}

theorem Inv.of_shape (h : Inv s) (hcalls : s'.calls = s.calls) (hid : s'.writedbufid_ = s.writedbufid_)
    (htick : tickets s'.log = tickets s.log) (hask : asked s'.pc = true → s'.lst_buffer_ ≠ [])
    (hshape : ∃ front last rest part, Shape s' front last rest part) : Inv s' := by
  refine ⟨hask, ?_, ?_, ?_, hshape⟩
  · rw [htick, hid]
    exact h.ids
  · rw [htick]
    exact h.small
  · rw [hcalls]
    exact h.calls

theorem Inv.frame (h : Inv s) (hcalls : s'.calls = s.calls) (hlst : s'.lst_buffer_ = s.lst_buffer_)
    (hid : s'.writedbufid_ = s.writedbufid_) (hwid : s'.write_id = s.write_id)
    (hpend : pending s' = pending s) (hask : asked s'.pc = true → asked s.pc = true)
    (hlog : s'.log = s.log ∨ ∃ e, Plain e ∧ s'.log = s.log ++ [e]) :
    Inv s' := by
  obtain ⟨htick, hwire, hrep⟩ : tickets s'.log = tickets s.log ∧ wire s'.log = wire s.log ∧
      reported s'.log = reported s.log := by
    rcases hlog with hlog | ⟨e, he, hlog⟩
    · rw [hlog]
      exact ⟨rfl, rfl, rfl⟩
    · rw [hlog, tickets_add, wire_add, reported_add, he.tickets, he.wire, he.reported]
      exact ⟨List.append_nil _, List.append_nil _, List.append_nil _⟩
  obtain ⟨front, last, rest, part, hs⟩ := h.shape
  refine h.of_shape hcalls hid htick ?_ ⟨front, last, rest, part, htick.trans hs.split,
    hrep.trans hs.told, hwid.trans hs.count, hs.taken.trans hpend.symm, hlst.symm ▸ hs.queue,
    hwire.trans hs.sent⟩
  intro ha
  rw [hlst]
  exact h.nonempty (hask ha)

theorem Inv.enter (h : Inv s) {tid : Nat} {d : Bytes} {b : RawBuffer} (hb : Holds b d 0)
    (hd : d.length < 2 ^ 32) : Inv (s.enter tid d b) := by
  obtain ⟨front, last, rest, part, hs⟩ := h.shape
  refine ⟨h.nonempty, h.ids, h.small, ?_, front, last, rest, part,
    ⟨hs.split, hs.told, hs.count, hs.taken, hs.queue, hs.sent⟩⟩
  intro t d' b' ht
  unfold TcpClient.enter at ht
  dsimp only at ht
  split at ht
  · cases ht
    exact ⟨hb, hd⟩
  · exact h.calls t d' b' ht

theorem Inv.push (h : Inv s) {tid : Nat} {d : Bytes} {b : RawBuffer} (hc : s.calls tid = some (d, b)) :
    Inv (TcpClient.emit { s with
      calls := fun t => if t = tid then none else s.calls t
      lst_buffer_ := s.lst_buffer_ ++ [b]
      writedbufid_ := s.writedbufid_ + 1 } (.written d (s.writedbufid_ + 1))) := by
  obtain ⟨hb, hd⟩ := h.calls tid d b hc
  obtain ⟨front, last, rest, part, hs⟩ := h.shape
  have htick : tickets (s.log ++ [.written d (s.writedbufid_ + 1)]) =
      tickets s.log ++ [(s.writedbufid_ + 1, d)] := tickets_add _ _
  refine ⟨?_, ?_, ?_, ?_, front, last, rest ++ [(s.writedbufid_ + 1, d)], part, ?_⟩
  · exact fun _ => List.append_ne_nil_of_right_ne_nil _ (List.cons_ne_nil _ _)
  · show (tickets (s.log ++ [_])).map Prod.fst = List.range' 1 (s.writedbufid_ + 1)
    rw [htick, List.map_append, h.ids, List.range'_1_concat, Nat.add_comm 1]
    rfl
  · intro x hx
    have hx' : x ∈ tickets s.log ++ [(s.writedbufid_ + 1, d)] := htick ▸ hx
    rcases List.mem_append.mp hx' with hx' | hx'
    · exact h.small x hx'
    · rw [List.mem_singleton.mp hx']
      exact hd
  · intro t d' b' ht
    have ht' : (if t = tid then none else s.calls t) = some (d', b') := ht
    split at ht'
    · cases ht'
    · exact h.calls t d' b' ht'
  · refine ⟨?_, ?_, hs.count, hs.taken, ?_, ?_⟩
    · show tickets (s.log ++ [_]) = _
      rw [htick, hs.split, List.append_assoc _ rest]
    · show reported (s.log ++ [_]) = _
      rw [reported_add, hs.told]
      exact List.append_nil _
    · show Queue (s.lst_buffer_ ++ [b]) _ part
      rw [List.map_append]
      exact hs.queue.push hb
    · show wire (s.log ++ [_]) = _
      rw [wire_add, hs.sent]
      exact List.append_nil _

theorem pending_nil (h : ∀ len, s.pc ≠ .wrote len) : pending s = [] := by
  unfold pending
  split
  · rename_i len hpc
    exact absurd hpc (h len)
  · rfl

theorem Inv.jump (h : Inv s) (hpc : ∀ len, s.pc ≠ .wrote len) {pc : Pc} (hpc' : ∀ len, pc ≠ .wrote len)
    (hask : asked pc = true → asked s.pc = true) : Inv { s with pc } :=
  h.frame rfl rfl rfl rfl ((pending_nil hpc').trans (pending_nil hpc).symm) hask (Or.inl rfl)

theorem Inv.stop (h : Inv s) (hpc : ∀ len, s.pc ≠ .wrote len) {status_ : TTcpStatus} {e : Event}
    (he : Plain e) : Inv (s.stop status_ e) :=
  h.frame rfl rfl rfl rfl (pending_nil hpc).symm nofun (Or.inr ⟨e, he, rfl⟩)

theorem Plain.onError {status_ : TTcpStatus} {errno : Int} : Plain (.OnError status_ errno) :=
  ⟨rfl, rfl, rfl⟩

theorem Plain.onDisConnect {isremote : Bool} : Plain (.OnDisConnect isremote) := ⟨rfl, rfl, rfl⟩

theorem send_inv (h : Inv s) (hpc : s.pc = .writing) {o : SendResult} {errno : Int}
    (hs' : send s o errno = some s') : Inv s' := by
  have hpc' : ∀ len, s.pc ≠ .wrote len := by
    rw [hpc]
    nofun
  obtain ⟨front, last, rest, part, hs⟩ := h.shape
  have hlast : last = [] := List.map_eq_nil_iff.mp (hs.taken.trans (pending_nil hpc'))
  subst hlast
  have hqueue := hs.queue
  unfold send at hs'
  split at hs'
  · cases hs'
  rename_i buf bs hlst
  rw [hlst] at hqueue
  cases rest with
  | nil => cases hqueue
  | cons x rest =>
    obtain ⟨p, hb, hbs, hpart⟩ : ∃ p, Holds buf x.2 p ∧
        List.Forall₂ (fun b d => Holds b d 0) bs (rest.map Prod.snd) ∧ part = x.2.take p := by
      cases hqueue with
      | cons hb hbs => exact ⟨_, hb, hbs, rfl⟩
    have hsmall : x.2.length < 2 ^ 32 := by
      refine h.small x ?_
      rw [hs.split]
      exact List.mem_append_right _ List.mem_cons_self
    obtain ⟨hlen, hpos, hle⟩ := hb.sizes
    dsimp only at hs'
    split at hs'
    · split at hs'
      · cases hs'
        exact h.stop hpc' .onError
      · cases hs'
        exact h.stop hpc' .onError
      · cases hs'
        exact h.jump hpc' nofun nofun
      · rename_i n _
        split at hs'
        swap
        · cases hs'
        rename_i hfit
        have hn : p + n ≤ x.2.length := by omega
        rw [hb.load hn hsmall] at hs'
        cases hs'
        have htick : tickets (s.log ++ [.sent ((x.2.drop p).take n)]) = tickets s.log :=
          (tickets_add _ _).trans (List.append_nil _)
        refine h.of_shape rfl rfl htick nofun ⟨front, [], x :: rest, x.2.take (p + n), htick.trans hs.split,
          ?_, hs.count, rfl, ?_, ?_⟩
        · exact (reported_add _ _).trans ((List.append_nil _).trans hs.told)
        · exact .cons (hb.seek hn hsmall) hbs
        · show wire (s.log ++ [_]) = _
          rw [wire_add, hs.sent, hpart, List.take_add, List.append_assoc]
          exact congrArg _ (congrArg _ (List.append_nil _))
    · rename_i hall
      cases hs'
      have hp : x.2.take p = x.2 := List.take_of_length_le (by omega)
      refine h.of_shape rfl rfl rfl nofun ⟨front, [x], rest, [], ?_, hs.told, hs.count, ?_, ?_, ?_⟩
      · rw [List.append_assoc]
        exact (hs.split).trans (congrArg (· ++ x :: rest) (List.append_nil _))
      · show [x.2.length] = [buf.length_]
        rw [hlen]
      · exact .of_fresh hbs
      · show wire s.log = _
        rw [hs.sent, hpart, hp, List.append_nil, List.map_append, List.flatten_append]
        show _ = _ ++ (x.2 ++ []) ++ []
        rw [List.append_nil, List.append_nil]

/-- `OnWrote` is about the write it is to be about -/
theorem wrote_inv (h : Inv s) {len : Nat} (hpc : s.pc = .wrote len) :
    Inv (TcpClient.emit { s with write_id := s.write_id + 1, pc := .told }
      (.OnWrote (s.write_id + 1) (len % 2 ^ 32))) := by
  obtain ⟨front, last, rest, part, hs⟩ := h.shape
  obtain ⟨x, rfl, hlen⟩ : ∃ x, last = [x] ∧ x.2.length = len := by
    have ht := hs.taken
    unfold pending at ht
    rw [hpc] at ht
    obtain ⟨x, rfl, hx⟩ := List.map_eq_singleton_iff.mp ht
    exact ⟨x, rfl, hx⟩
  have hsmall : x.2.length < 2 ^ 32 := by
    refine h.small x ?_
    rw [hs.split, List.append_assoc]
    exact List.mem_append_right _ List.mem_cons_self
  have hid : x.1 = s.write_id + 1 := by
    have hids := h.ids
    rw [hs.split, List.append_assoc] at hids
    have hget : ((front ++ ([x] ++ rest)).map Prod.fst)[front.length]? = some x.1 := by
      rw [List.getElem?_map, List.getElem?_append_right le_rfl, Nat.sub_self]
      rfl
    rw [hids] at hget
    obtain ⟨hlt, he⟩ := List.getElem?_eq_some_iff.mp hget
    rw [List.getElem_range'] at he
    rw [← he, hs.count]
    omega
  have htick : tickets (s.log ++ [.OnWrote (s.write_id + 1) (len % 2 ^ 32)]) = tickets s.log :=
    (tickets_add _ _).trans (List.append_nil _)
  refine h.of_shape rfl rfl htick nofun ⟨front ++ [x], [], rest, part, ?_, ?_, ?_, rfl, hs.queue, ?_⟩
  · rw [List.append_nil]
    exact htick.trans hs.split
  · refine (reported_add _ _).trans ?_
    rw [hs.told, List.map_append]
    show _ ++ [(s.write_id + 1, len % 2 ^ 32)] = _ ++ [(x.1, x.2.length)]
    rw [hid, hlen, Nat.mod_eq_of_lt (by omega)]
  · rw [List.length_append, ← hs.count]
    rfl
  · rw [List.append_nil]
    show wire (s.log ++ [_]) = _
    rw [wire_add, hs.sent]
    exact List.append_nil _

theorem not_wrote {pc : Pc} (hpc : s.pc = pc) (h : ∀ len, pc ≠ .wrote len) :
    ∀ len, s.pc ≠ .wrote len := by
  rw [hpc]
  exact h

theorem peek_inv (h : Inv s) {write : Bool} (hs : s.pc = .reading write) {o : Peek} :
    Inv (peek s write o) := by
  have hpc : ∀ len, s.pc ≠ .wrote len := not_wrote hs nofun
  have hask : asked (if write then Pc.writing else Pc.head) = true → asked s.pc = true := by
    rw [hs]
    cases write <;> exact id
  have hto : ∀ len, (if write then Pc.writing else Pc.head) ≠ .wrote len := by
    intro len
    split <;> nofun
  cases o with
  | data =>
    exact h.frame rfl rfl rfl rfl ((pending_nil hto).trans (pending_nil hpc).symm) hask
      (Or.inr ⟨.OnRead, ⟨rfl, rfl, rfl⟩, rfl⟩)
  | closed =>
    exact h.frame rfl rfl rfl rfl (pending_nil hpc).symm nofun (Or.inr ⟨_, .onDisConnect, rfl⟩)
  | again => exact h.jump hpc hto hask
  | failed errno => exact h.stop hpc .onError

theorem head_inv (h : Inv s) (hpc : s.pc = .head) :
    Inv { s with pc := .select (!s.have_read_data_) (!s.lst_buffer_.isEmpty) } := by
  obtain ⟨front, last, rest, part, hs⟩ := h.shape
  have hpend : pending s = [] := pending_nil (not_wrote hpc nofun)
  refine h.of_shape rfl rfl rfl ?_ ⟨front, last, rest, part, hs.split, hs.told, hs.count,
    hs.taken.trans hpend, hs.queue, hs.sent⟩
  intro ha hnil
  have ha' : (!s.lst_buffer_.isEmpty) = true := ha
  have hnil' : s.lst_buffer_ = [] := hnil
  rw [hnil'] at ha'
  cases ha'

theorem opens_inv (h : Inv s) {o : Opens} (hs' : opens s o = some s') : Inv s' := by
  unfold opens at hs'
  split at hs'
  · rename_i hpc _
    split at hs'
    · cases hs'
      exact h.stop (not_wrote hpc nofun) .onError
    · cases hs'
  · rename_i hpc _
    split at hs'
    · cases hs'
      exact h.stop (not_wrote hpc nofun) .onDisConnect
    · cases hs'
      exact h.frame rfl rfl rfl rfl (pending_nil (not_wrote hpc nofun)).symm nofun
        (Or.inr ⟨.OnConnect, ⟨rfl, rfl, rfl⟩, rfl⟩)
  · cases hs'

theorem selects_inv (h : Inv s) {o : Selects} (hs' : selects s o = some s') : Inv s' := by
  unfold selects at hs'
  split at hs'
  · rename_i hpc
    cases hs'
    exact h.jump (not_wrote hpc nofun) nofun nofun
  · rename_i hpc
    cases hs'
    exact h.stop (not_wrote hpc nofun) .onError
  · rename_i r w exception read write hpc
    have hpc' : ∀ len, s.pc ≠ .wrote len := not_wrote hpc nofun
    split at hs'
    · cases hs'
    rename_i hsets
    split at hs'
    · cases hs'
      exact h.stop hpc' .onDisConnect
    split at hs'
    · cases hs'
      exact h.stop hpc' .onError
    · cases hs'
      refine h.jump hpc' ?_ ?_
      · intro len
        split
        · nofun
        · split <;> nofun
      · rw [hpc]
        intro ha
        -- the write part is entered where the write set was asked for
        have hw : write = true := by
          revert ha
          cases read <;> cases write <;> decide
        show w = true
        rw [hw] at hsets
        simpa using fun hw' : w = false => hsets (by rw [hw']; exact Bool.or_true _)
  · cases hs'

/-- **Every step keeps the invariant.** -/
theorem step_inv (h : Inv s) {a : Action} (hs' : step s a = some s') : Inv s' := by
  cases a with
  | write tid _buf fresh =>
    rw [step] at hs'
    split at hs'
    · cases hs'
    rename_i hfree
    split at hs'
    · cases hs'
      exact h
    · obtain ⟨b, hb, rfl⟩ := Option.map_eq_some_iff.mp hs'
      have hd : _buf.length < 2 ^ 32 := Nat.not_le.mp fun hle => hfree (Or.inr hle)
      exact h.enter (.write hd hb) hd
  | writePostData tid _buf =>
    rw [step] at hs'
    split at hs'
    · cases hs'
    rename_i hfree
    split at hs'
    · cases hs'
      exact h
    · cases hs'
      have hd : _buf.length < 2 ^ 32 := Nat.not_le.mp fun hle => hfree (Or.inr hle)
      exact h.enter (.attach hd) hd
  | push tid =>
    rw [step] at hs'
    split at hs'
    · cases hs'
    · rename_i hc
      split at hs'
      · cases hs'
      · cases hs'
        exact h.push hc
  | read =>
    rw [step] at hs'
    split at hs'
    · cases hs'
      exact h
    · cases hs'
      exact h.frame rfl rfl rfl rfl rfl id (Or.inl rfl)
  | disconnect =>
    cases hs'
    exact h.frame rfl rfl rfl rfl rfl id (Or.inl rfl)
  | connect ret =>
    rw [step] at hs'
    split at hs'
    · cases hs'
      exact h
    · cases hs'
      exact h.frame rfl rfl rfl rfl rfl id (Or.inl rfl)
  | run =>
    rw [step] at hs'
    split at hs'
    · split at hs'
      · cases hs'
        exact h.frame rfl rfl rfl rfl rfl id (Or.inl rfl)
      · cases hs'
    · rename_i hpc
      cases hs'
      exact head_inv h hpc
    · rename_i len hpc
      cases hs'
      exact wrote_inv h hpc
    · rename_i hpc
      have hpc' : ∀ len, s.pc ≠ .wrote len := not_wrote hpc nofun
      split at hs'
      · cases hs'
        exact h.frame rfl rfl rfl rfl (pending_nil hpc').symm nofun
          (Or.inr ⟨.OnAllWrote, ⟨rfl, rfl, rfl⟩, rfl⟩)
      · cases hs'
        exact h.jump hpc' nofun nofun
    · cases hs'
  | opens o => exact opens_inv h hs'
  | selects o => exact selects_inv h hs'
  | peeks o =>
    rw [step] at hs'
    split at hs'
    · rename_i write hpc
      cases hs'
      exact peek_inv h hpc
    · cases hs'
  | sends o errno =>
    rw [step] at hs'
    split at hs'
    · rename_i hpc
      exact send_inv h hpc hs'
    · cases hs'

theorem new_inv (isCreateSuc : Bool) : Inv (new isCreateSuc) :=
  ⟨nofun, rfl, nofun, nofun, [], [], [], [], rfl, rfl, rfl, rfl, .nil, rfl⟩

theorem run_inv {isCreateSuc : Bool} {actions : List Action}
    (h : exec step (new isCreateSuc) actions = some s) : Inv s :=
  (Run.of_exec h).keep (fun _ _ _ hi _ hs => step_inv hi hs) (new_inv isCreateSuc)

theorem writing_nonempty {isCreateSuc : Bool} {actions : List Action}
    (h : exec step (new isCreateSuc) actions = some s) (hpc : s.pc = .writing) :
    s.lst_buffer_ ≠ [] := by
  refine (run_inv h).nonempty ?_
  rw [hpc]
  rfl

end

/-- **The write stream**, in every run.  The ids count the writes in the order they took the lock; what
goes out is a prefix of their bytes, all of them where the queue is empty; `OnWrote` has been called
for the first `k` of them, in order, each with its id and its length, and with all their bytes out;
one more may be about to be told of, and the others are in the queue. -/
theorem write_stream (isCreateSuc : Bool) (actions : List Action) (s : TcpClient)
    (h : exec step (new isCreateSuc) actions = some s) :
    let bufs := (tickets s.log).map Prod.snd
    (tickets s.log).map Prod.fst = List.range' 1 bufs.length ∧
    wire s.log <+: bufs.flatten ∧ (s.lst_buffer_ = [] → wire s.log = bufs.flatten) ∧
    ∃ k, reported s.log = ((tickets s.log).take k).map receipt ∧
      (bufs.take k).flatten <+: wire s.log ∧
      bufs.length = k + (pending s).length + s.lst_buffer_.length := by
  have hi := run_inv h
  obtain ⟨front, last, rest, part, hs⟩ := hi.shape
  have hbufs : (tickets s.log).map Prod.snd = (front ++ last).map Prod.snd ++ rest.map Prod.snd := by
    rw [hs.split, List.map_append]
  refine ⟨?_, ?_, ?_, front.length, ?_, ?_, ?_⟩
  · have hlen := congrArg List.length hi.ids
    rw [List.length_map, List.length_range'] at hlen
    rw [List.length_map, hlen]
    exact hi.ids
  · rw [hbufs, hs.sent, List.flatten_append]
    exact (List.prefix_append_right_inj _).mpr hs.queue.part_prefix
  · intro hnil
    have hqueue := hs.queue
    have hrest : rest = [] := by
      have hlen := hqueue.length_eq
      rw [hnil, List.length_map] at hlen
      exact List.length_eq_zero_iff.mp hlen.symm
    subst hrest
    have hpart : part = [] := by
      have hp := hqueue.part_prefix
      exact List.prefix_nil.mp hp
    rw [hbufs, hs.sent, hpart, List.map_nil, List.append_nil, List.append_nil]
  · rw [hs.told, hs.split, List.append_assoc, List.take_left]
  · rw [hs.sent, hs.split, ← List.map_take, List.append_assoc, List.take_left, List.map_append,
      List.flatten_append, List.append_assoc]
    exact List.prefix_append _ _
  · rw [hbufs, ← hs.taken]
    have hlen := hs.queue.length_eq
    rw [List.length_map] at hlen
    simp only [List.length_append, List.length_map]
    omega

/-- two threads write, the second one takes the lock first, and what it wrote goes out in two pieces -/
def twoWriters : List Action := [.connect 0, .run, .opens .connected,
  .write 1 [1, 2, 3] (fun _ => 7), .writePostData 2 [4, 5], .push 2, .push 1,
  .run, .selects (.sets none false true), .sends (.sent 1) 0,
  .run, .selects (.sets none false true), .sends .again 0,
  .run, .selects (.sets none false true), .sends (.sent 1) 0,
  .run, .selects (.sets none false true), .sends .again 0, .run, .run]

theorem write_stream_two : ∃ s, exec step (new true) twoWriters = some s ∧
    tickets s.log = [(1, [4, 5]), (2, [1, 2, 3])] ∧ reported s.log = [(1, 2)] ∧
    ((tickets s.log).map Prod.fst = List.range' 1 ((tickets s.log).map Prod.snd).length ∧
      wire s.log <+: ((tickets s.log).map Prod.snd).flatten) := by
  obtain ⟨s, hs, htick, hrep⟩ : ∃ s, exec step (new true) twoWriters = some s ∧
      tickets s.log = [(1, [4, 5]), (2, [1, 2, 3])] ∧ reported s.log = [(1, 2)] := by
    have h : (exec step (new true) twoWriters).any (fun s =>
        tickets s.log == [(1, [4, 5]), (2, [1, 2, 3])] && reported s.log == [(1, 2)]) = true := by
      decide +kernel
    obtain ⟨s, hs, hp⟩ := (Option.any_eq_true _ _).mp h
    simp only [Bool.and_eq_true, beq_iff_eq] at hp
    exact ⟨s, hs, hp.1, hp.2⟩
  obtain ⟨hids, hwire, -, -⟩ := write_stream true twoWriters s hs
  exact ⟨s, hs, htick, hrep, hids, hwire⟩

end Tcp
