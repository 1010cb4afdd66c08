import LearnDiary.Socket.SocketSelect
import LearnDiary.Socket.TcpClientFsm
import Mathlib.Data.List.Infix

/-!
# `TcpServerFSM` (comm/socket/tcpserver_fsm.cc)

The machine of one accepted connection.  Its virtual callbacks are a parameter: they work on the
buffers and on the data of the derived class, and each may call `Close` at its end.  The sets of a
`SocketSelect` are looked up by descriptor, which after a `Close` is `INVALID_SOCKET`.

* `Shape`          the calls to the outside: sends and receives, one `socket_close`, one `_OnClose`
  that says whether the local side has called `Close`;
* `step_shape`, `run_shape`  kept unless a callback closes where the code does not look again;
* `step_stream`, `run_stream`  what is sent and what waits is what was queued, and the same for what
  is received.
-/

inductive TcpServerFSM.TSocketStatus where
  | kAccept
  | kReadWrite
  | kEnd
deriving DecidableEq

/-- what the callbacks of a derived class with data `δ` work on -/
structure Duplex (δ : Type) where
  own : δ
  send_buf_ : Bytes := []
  recv_buf_ : Bytes := []

/-- the callbacks of a derived class; `α` is what the outside answers to one of them, and the second
part is the argument of a call of `Close` -/
structure Callbacks (δ α : Type) where
  onAccept : α → Duplex δ → Duplex δ × Option Bool
  onRecv : Nat → α → Duplex δ → Duplex δ × Option Bool
  onSend : Nat → α → Duplex δ → Duplex δ × Option Bool

structure TcpServerFSM (δ : Type) extends Duplex δ where
  status_ : TcpServerFSM.TSocketStatus := .kAccept
  /-- none is `INVALID_SOCKET` -/
  sock_ : Option Nat
  is_write_fd_set_ : Bool := false

/-- a `SocketSelect` knows nothing of `INVALID_SOCKET` -/
structure Selection.Proper (sel : Selection) : Prop where
  read : sel.read (-1) = false
  write : sel.write (-1) = false

/-- what the calls of `AfterReadWriteSelect` give, and the time that is left -/
structure Syscalls (α : Type) where
  error : Int := 0
  send : SendResult := .again
  onSend : α
  recv : RecvResult := .again
  onRecv : α
  timeout : Int := 2147483647

namespace TcpServerFSM
open Runs SocketSelect

/-- a call to the outside, or the call of `Close` by the local side -/
inductive Call where
  | Close (_notify : Bool)
  | send (bytes : Bytes)
  | recv (bytes : Bytes)
  | socket_close (_sock : Option Nat)
  | _OnClose (_status : TSocketStatus) (_error : Int) (_userclose : Bool)
deriving DecidableEq

section
variable {δ α : Type}

def new (_socket : Nat) (own : δ) : TcpServerFSM δ := { own := own, sock_ := some _socket }

def socket (f : TcpServerFSM δ) : Int :=
  match f.sock_ with
  | none => -1
  | some fd => fd

def close (f : TcpServerFSM δ) (_notify : Bool) : TcpServerFSM δ × List Call :=
  match f.sock_ with
  | none => (f, [])
  | some fd =>
    ({ f with sock_ := none, status_ := .kEnd },
      .socket_close (some fd) :: if _notify then [._OnClose f.status_ 0 true] else [])

/-- the local side calls `Close` -/
def userClose (f : TcpServerFSM δ) (_notify : Bool) : TcpServerFSM δ × List Call :=
  let r := f.close _notify
  (r.1, .Close _notify :: r.2)

def called (f : TcpServerFSM δ) (r : Duplex δ × Option Bool) : TcpServerFSM δ × List Call :=
  let f := { f with toDuplex := r.1 }
  match r.2 with
  | none => (f, [])
  | some _notify => f.userClose _notify

/-- `socket_close(sock_); sock_ = INVALID_SOCKET; status_ = kEnd; _OnClose(kReadWrite, error, false)` -/
def fail (f : TcpServerFSM δ) (error : Int) : TcpServerFSM δ × List Call :=
  ({ f with sock_ := none, status_ := .kEnd },
    [.socket_close f.sock_, ._OnClose .kReadWrite error false])

def preReadWriteSelect (f : TcpServerFSM δ) : TcpServerFSM δ × List SetCall :=
  ({ f with is_write_fd_set_ := decide (0 < f.send_buf_.length) },
    .read f.socket :: .exception f.socket ::
      if 0 < f.send_buf_.length then [.write f.socket] else [])

def preSelect (V : Callbacks δ α) (f : TcpServerFSM δ) (a : α) :
    TcpServerFSM δ × List Call × List SetCall :=
  let (f, calls) :=
    if f.status_ = .kAccept then
      let (f, calls) := f.called (V.onAccept a f.toDuplex)
      ({ f with status_ := .kReadWrite }, calls)
    else (f, [])
  if f.status_ = .kReadWrite then
    let (f, sets) := f.preReadWriteSelect
    (f, calls, sets)
  else (f, calls, [])

/-- the part for the write set, and whether the function returns there; `send` of an empty buffer
gives 0 and leaves any number in `errno` -/
def writePart (V : Callbacks δ α) (f : TcpServerFSM δ) (_sel : Selection) (o : Syscalls α) :
    Option ((TcpServerFSM δ × List Call) × Bool) :=
  if _sel.write f.socket then
    match o.send with
    | .sent ret =>
      if 0 < ret ∧ ret ≤ f.send_buf_.length then
        let data := f.send_buf_.take ret
        let f := { f with send_buf_ := f.send_buf_.drop ret }
        let (f, calls) := f.called (V.onSend ret o.onSend f.toDuplex)
        some ((f, .send data :: calls), false)
      else none
    | .again => some ((f, []), false)
    | .failed errno => some (f.fail errno, true)
  else some ((f, []), false)

def readPart (V : Callbacks δ α) (f : TcpServerFSM δ) (_sel : Selection) (o : Syscalls α) :
    Option ((TcpServerFSM δ × List Call) × Bool) :=
  if _sel.read f.socket then
    match o.recv with
    | .data bytes =>
      if bytes = [] then none
      else
        let f := { f with recv_buf_ := f.recv_buf_ ++ bytes }
        let (f, calls) := f.called (V.onRecv bytes.length o.onRecv f.toDuplex)
        some ((f, .recv bytes :: calls), false)
    | .closed => some (f.fail 0, true)
    | .again => some ((f, []), false)
    | .failed errno => some (f.fail errno, true)
  else some ((f, []), false)

/-- neither set, and no time left -/
def timePart (f : TcpServerFSM δ) (_sel : Selection) (o : Syscalls α) :
    TcpServerFSM δ × List Call :=
  if ¬ _sel.write f.socket ∧ ¬ _sel.read f.socket ∧ o.timeout ≤ 0 then f.fail ETIMEDOUT else (f, [])

def afterReadWriteSelect (V : Callbacks δ α) (f : TcpServerFSM δ) (_sel : Selection)
    (o : Syscalls α) : Option (TcpServerFSM δ × List Call) :=
  if _sel.exception f.socket then some (f.fail o.error)
  else
    (f.writePart V _sel o).bind fun r =>
      if r.2 then some r.1
      else
        (r.1.1.readPart V _sel o).map fun q =>
          if q.2 then (q.1.1, r.1.2 ++ q.1.2)
          else
            let t := q.1.1.timePart _sel o
            (t.1, r.1.2 ++ q.1.2 ++ t.2)

def afterSelect (V : Callbacks δ α) (f : TcpServerFSM δ) (_sel : Selection) (o : Syscalls α) :
    Option (TcpServerFSM δ × List Call) :=
  if f.status_ = .kReadWrite then f.afterReadWriteSelect V _sel o else some (f, [])

def INT_MAX : Int := 2147483647

/-- `Timeout()`, where the derived class says `ReadWriteTimeout` -/
def timeout (f : TcpServerFSM δ) (readWriteTimeout : Int) : Int :=
  match f.status_ with
  | .kReadWrite => readWriteTimeout
  | .kEnd => 0
  | .kAccept => INT_MAX

/-! ## runs -/

structure State (δ : Type) where
  fsm : TcpServerFSM δ
  log : List Call := []

inductive Act (α : Type) where
  | preSelect (a : α)
  | afterSelect (_sel : Selection) (o : Syscalls α)
  | close (_notify : Bool)
  /-- the derived class has something to send -/
  | write (bytes : Bytes)

def step (V : Callbacks δ α) (s : State δ) : Act α → Option (State δ)
  | .preSelect a =>
    let r := s.fsm.preSelect V a
    some { fsm := r.1, log := s.log ++ r.2.1 }
  | .afterSelect _sel o =>
    (s.fsm.afterSelect V _sel o).map fun r => { fsm := r.1, log := s.log ++ r.2 }
  | .close _notify =>
    let r := s.fsm.userClose _notify
    some { fsm := r.1, log := s.log ++ r.2 }
  | .write bytes => some { s with fsm := { s.fsm with send_buf_ := s.fsm.send_buf_ ++ bytes } }

/-! ## the calls to the outside -/

def Call.io : Call → Bool
  | .Close _ => false
  | .send _ => true
  | .recv _ => true
  | .socket_close _ => false
  | ._OnClose _ _ _ => false

/-- how a connection ends: the local side calls `Close`, silently or to be told so, or it is told of
an end that it has not asked for -/
inductive Ending (fd : Nat) : List Call → Prop where
  | silent : Ending fd [.Close false, .socket_close (some fd)]
  | user (_status : TSocketStatus) (hst : _status ≠ .kEnd) :
    Ending fd [.Close true, .socket_close (some fd), ._OnClose _status 0 true]
  | other (_error : Int) :
    Ending fd [.socket_close (some fd), ._OnClose .kReadWrite _error false]

/-- calls of `Close` that do nothing more -/
def Late (calls : List Call) : Prop := ∀ c ∈ calls, ∃ _notify, c = .Close _notify

/-- a machine of the socket `fd` and what it has called -/
inductive Shape (fd : Nat) (f : TcpServerFSM δ) (calls : List Call) : Prop where
  | live (hsock : f.sock_ = some fd) (hst : f.status_ ≠ .kEnd) (hio : ∀ c ∈ calls, c.io = true)
  | ended (hsock : f.sock_ = none) (hst : f.status_ = .kEnd) (io e late : List Call)
      (hcalls : calls = io ++ e ++ late) (hio : ∀ c ∈ io, c.io = true) (he : Ending fd e)
      (hlate : Late late)

section
variable {V : Callbacks δ α} {f f' : TcpServerFSM δ} {fd : Nat} {calls l : List Call}

theorem Shape.new (fd : Nat) (own : δ) : Shape fd (new fd own) [] :=
  .live rfl (fun h => by cases h) (List.forall_mem_nil _)

theorem Shape.ending (hsock : f.sock_ = none) (hst : f.status_ = .kEnd) (he : Ending fd calls) :
    Shape fd f calls :=
  .ended hsock hst [] calls [] (List.append_nil _).symm (List.forall_mem_nil _) he
    (List.forall_mem_nil _)

theorem Shape.prepend (h : Shape fd f calls) (hl : ∀ c ∈ l, c.io = true) :
    Shape fd f (l ++ calls) := by
  have happ : ∀ m : List Call, (∀ c ∈ m, c.io = true) → ∀ c ∈ l ++ m, c.io = true := by
    intro m hm c hc
    rcases List.mem_append.mp hc with hc | hc
    · exact hl c hc
    · exact hm c hc
  cases h with
  | live hsock hst hio => exact .live hsock hst (happ calls hio)
  | ended hsock hst io e late hcalls hio he hlate =>
    refine .ended hsock hst (l ++ io) e late ?_ (happ io hio) he hlate
    rw [hcalls, List.append_assoc l io e, List.append_assoc l]

/-- calls of `Close` come behind the end -/
theorem Shape.append {late : List Call} (h : Shape fd f calls) (hsock : f.sock_ = none)
    (hl : Late late) : Shape fd f (calls ++ late) := by
  cases h with
  | live hs => rw [hs] at hsock; cases hsock
  | ended _ hst io e late' hcalls hio he hlate =>
    refine .ended hsock hst io e (late' ++ late) ?_ hio he fun c hc => ?_
    · rw [hcalls, List.append_assoc (io ++ e)]
    · rcases List.mem_append.mp hc with hc | hc
      · exact hlate c hc
      · exact hl c hc

theorem userClose_shape (hsock : f.sock_ = some fd) (hst : f.status_ ≠ .kEnd) (_notify : Bool) :
    Shape fd (f.userClose _notify).1 (f.userClose _notify).2 := by
  unfold userClose close
  rw [hsock]
  cases _notify with
  | false => exact .ending rfl rfl .silent
  | true => exact .ending rfl rfl (.user _ hst)

theorem fail_shape (hsock : f.sock_ = some fd) (error : Int) :
    Shape fd (f.fail error).1 (f.fail error).2 := by
  unfold fail
  rw [hsock]
  exact .ending rfl rfl (.other error)

theorem called_shape (hsock : f.sock_ = some fd) (hst : f.status_ ≠ .kEnd)
    (r : Duplex δ × Option Bool) : Shape fd (f.called r).1 (f.called r).2 := by
  unfold called
  cases r.2 with
  | none => exact .live hsock hst (List.forall_mem_nil _)
  | some _notify => exact userClose_shape (f := { f with toDuplex := r.1 }) hsock hst _notify

theorem called_open (hsock : f.sock_ = some fd) (hst : f.status_ ≠ .kEnd)
    {r : Duplex δ × Option Bool} (hr : r.2 = none) :
    (f.called r).1.sock_ = some fd ∧ (f.called r).1.status_ ≠ .kEnd := by
  unfold called
  rw [hr]
  exact ⟨hsock, hst⟩

/-- the callbacks of `AfterSelect` do not close -/
def Keeps (V : Callbacks δ α) : Prop :=
  ∀ n a d, (V.onSend n a d).2 = none ∧ (V.onRecv n a d).2 = none

theorem writePart_shape {sel : Selection} {o : Syscalls α} {r : (TcpServerFSM δ × List Call) × Bool}
    (hsock : f.sock_ = some fd) (hst : f.status_ ≠ .kEnd) (h : f.writePart V sel o = some r) :
    Shape fd r.1.1 r.1.2 ∧ (Keeps V → r.2 = false → r.1.1.sock_ = some fd) := by
  have hsame : Shape fd f [] := .live hsock hst (List.forall_mem_nil _)
  unfold writePart at h
  split at h
  · split at h
    · split at h
      · rename_i ret _ _
        cases h
        refine ⟨?_, fun hV _ => ?_⟩
        · refine (called_shape (f := { f with send_buf_ := f.send_buf_.drop ret }) hsock hst
            _).prepend (l := [.send (f.send_buf_.take ret)]) fun c hc => ?_
          rw [List.mem_singleton.mp hc]
          rfl
        · exact (called_open (f := { f with send_buf_ := f.send_buf_.drop ret }) hsock hst
            (hV _ _ _).1).1
      · cases h
    · cases h
      exact ⟨hsame, fun _ _ => hsock⟩
    · cases h
      exact ⟨fail_shape hsock _, fun _ hr => by cases hr⟩
  · cases h
    exact ⟨hsame, fun _ _ => hsock⟩

theorem readPart_shape {sel : Selection} {o : Syscalls α} {r : (TcpServerFSM δ × List Call) × Bool}
    (hsock : f.sock_ = some fd) (hst : f.status_ ≠ .kEnd) (h : f.readPart V sel o = some r) :
    Shape fd r.1.1 r.1.2 ∧ (Keeps V → r.2 = false → r.1.1.sock_ = some fd) := by
  have hsame : Shape fd f [] := .live hsock hst (List.forall_mem_nil _)
  unfold readPart at h
  split at h
  · split at h
    · rename_i bytes _
      split at h
      · cases h
      · cases h
        refine ⟨?_, fun hV _ => ?_⟩
        · refine (called_shape (f := { f with recv_buf_ := f.recv_buf_ ++ bytes }) hsock hst
            _).prepend (l := [.recv bytes]) fun c hc => ?_
          rw [List.mem_singleton.mp hc]
          rfl
        · exact (called_open (f := { f with recv_buf_ := f.recv_buf_ ++ bytes }) hsock hst
            (hV _ _ _).2).1
    · cases h
      exact ⟨fail_shape hsock _, fun _ hr => by cases hr⟩
    · cases h
      exact ⟨hsame, fun _ _ => hsock⟩
    · cases h
      exact ⟨fail_shape hsock _, fun _ hr => by cases hr⟩
  · cases h
    exact ⟨hsame, fun _ _ => hsock⟩

theorem socket_none (hsock : f.sock_ = none) : f.socket = -1 := by
  unfold socket
  rw [hsock]

theorem readPart_none {sel : Selection} (hsel : sel.Proper) (o : Syscalls α) (hsock : f.sock_ = none) :
    f.readPart V sel o = some ((f, []), false) := by
  have hr : ¬ sel.read f.socket = true := by
    rw [socket_none hsock, hsel.read]
    decide
  rw [readPart, if_neg hr]

theorem timePart_some {sel : Selection} {o : Syscalls α} (ht : 0 < o.timeout) :
    f.timePart sel o = (f, []) := by
  have hc : ¬ (¬ sel.write f.socket = true ∧ ¬ sel.read f.socket = true ∧ o.timeout ≤ 0) := by
    rintro ⟨-, -, h⟩
    omega
  rw [timePart, if_neg hc]

theorem timePart_shape {sel : Selection} {o : Syscalls α} (hsock : f.sock_ = some fd)
    (hst : f.status_ ≠ .kEnd) : Shape fd (f.timePart sel o).1 (f.timePart sel o).2 := by
  unfold timePart
  split
  · exact fail_shape hsock _
  · exact .live hsock hst (List.forall_mem_nil _)

theorem rest_shape {sel : Selection} {o : Syscalls α}
    (hV : 0 < o.timeout ∨ Keeps V) (hsock : f.sock_ = some fd) (hst : f.status_ ≠ .kEnd)
    {q : (TcpServerFSM δ × List Call) × Bool} (h : f.readPart V sel o = some q) :
    Shape fd (if q.2 then q.1.1 else (q.1.1.timePart sel o).1)
      (if q.2 then q.1.2 else q.1.2 ++ (q.1.1.timePart sel o).2) := by
  obtain ⟨hq, hkeep⟩ := readPart_shape hsock hst h
  cases hd : q.2 with
  | true => exact hq
  | false =>
    rw [if_neg (by decide), if_neg (by decide)]
    cases hq with
    | live hs' hst' hio => exact (timePart_shape hs' hst').prepend hio
    | ended hs' hst' io e late hcalls hio he hlate =>
      rcases hV with ht | hV
      · rw [timePart_some ht, List.append_nil]
        exact .ended hs' hst' io e late hcalls hio he hlate
      · rw [hkeep hV hd] at hs'
        cases hs'

theorem afterReadWriteSelect_shape {sel : Selection} {o : Syscalls α} (hsel : sel.Proper)
    (hV : 0 < o.timeout ∨ Keeps V) (hsock : f.sock_ = some fd) (hst : f.status_ ≠ .kEnd)
    {t : TcpServerFSM δ × List Call} (h : f.afterReadWriteSelect V sel o = some t) :
    Shape fd t.1 t.2 := by
  unfold afterReadWriteSelect at h
  split at h
  · cases h
    exact fail_shape hsock _
  · obtain ⟨r, hr, h⟩ := Option.bind_eq_some_iff.mp h
    obtain ⟨hrs, hkeep⟩ := writePart_shape hsock hst hr
    split at h
    · cases h
      exact hrs
    · rename_i hd
      obtain ⟨q, hq, rfl⟩ := Option.map_eq_some_iff.mp h
      cases hrs with
      | live hs' hst' hio =>
        have hrest := (rest_shape hV hs' hst' hq).prepend hio
        cases hd2 : q.2 with
        | true =>
          rw [hd2] at hrest
          exact hrest
        | false =>
          rw [hd2, if_neg (by decide), if_neg (by decide), ← List.append_assoc] at hrest
          exact hrest
      | ended hs' hst' io e late hcalls hio he hlate =>
        rw [readPart_none hsel o hs'] at hq
        cases hq
        rcases hV with ht | hV
        · rw [if_neg Bool.false_ne_true]
          dsimp only
          rw [timePart_some ht, List.append_nil, List.append_nil]
          exact .ended hs' hst' io e late hcalls hio he hlate
        · rw [hkeep hV (Bool.eq_false_iff.mpr hd)] at hs'
          cases hs'

/-- the condition on a step: `_OnAccept` does not close, and where a callback of `AfterSelect` may
close there is time left -/
def Careful (V : Callbacks δ α) (s : State δ) : Act α → Prop
  | .preSelect a => s.fsm.status_ = .kAccept → (V.onAccept a s.fsm.toDuplex).2 = none
  | .afterSelect sel o => sel.Proper ∧ (0 < o.timeout ∨ Keeps V)
  | .close _ => True
  | .write _ => True

theorem preSelect_shape {a : α} (hsock : f.sock_ = some fd) (hst : f.status_ ≠ .kEnd)
    (ha : f.status_ = .kAccept → (V.onAccept a f.toDuplex).2 = none) :
    Shape fd (f.preSelect V a).1 (f.preSelect V a).2.1 := by
  unfold preSelect called
  by_cases hacc : f.status_ = .kAccept
  · rw [if_pos hacc, ha hacc]
    exact .live hsock (fun h => by cases h) (List.forall_mem_nil _)
  · rw [if_neg hacc]
    dsimp only
    split
    · exact .live hsock hst (List.forall_mem_nil _)
    · exact .live hsock hst (List.forall_mem_nil _)

/-- at the end nothing is called any more, but for `Close` -/
theorem step_ended {s s' : State δ} {a : Act α} (hsock : s.fsm.sock_ = none)
    (hst : s.fsm.status_ = .kEnd) (h : step V s a = some s') :
    s'.fsm.sock_ = none ∧ s'.fsm.status_ = .kEnd ∧ ∃ late, s'.log = s.log ++ late ∧ Late late := by
  have hacc : ¬ s.fsm.status_ = .kAccept := by rw [hst]; decide
  have hrw : ¬ s.fsm.status_ = .kReadWrite := by rw [hst]; decide
  cases a with
  | preSelect a =>
    cases h
    dsimp only
    rw [preSelect, if_neg hacc]
    dsimp only
    rw [if_neg hrw]
    exact ⟨hsock, hst, [], rfl, List.forall_mem_nil _⟩
  | afterSelect sel o =>
    obtain ⟨r, hr, rfl⟩ := Option.map_eq_some_iff.mp h
    rw [afterSelect, if_neg hrw] at hr
    cases hr
    exact ⟨hsock, hst, [], rfl, List.forall_mem_nil _⟩
  | close n =>
    cases h
    dsimp only
    rw [userClose, close, hsock]
    exact ⟨hsock, hst, [.Close n], rfl, fun c hc => ⟨n, List.mem_singleton.mp hc⟩⟩
  | write bytes =>
    cases h
    exact ⟨hsock, hst, [], (List.append_nil _).symm, List.forall_mem_nil _⟩

/-- **One step**: the calls stay a stretch of sends and receives and one end. -/
theorem step_shape {s s' : State δ} {a : Act α} (h : Shape fd s.fsm s.log) (ha : Careful V s a)
    (hs : step V s a = some s') : Shape fd s'.fsm s'.log := by
  cases h with
  | ended hsock hst io e late hcalls hio he hlate =>
    obtain ⟨h1, h2, late', hlog, hlate'⟩ := step_ended hsock hst hs
    rw [hlog]
    exact (Shape.ended h1 h2 io e late hcalls hio he hlate).append h1 hlate'
  | live hsock hst hio =>
    cases a with
    | preSelect a =>
      cases hs
      exact (preSelect_shape hsock hst ha).prepend hio
    | afterSelect sel o =>
      obtain ⟨r, hr, rfl⟩ := Option.map_eq_some_iff.mp hs
      unfold afterSelect at hr
      split at hr
      · exact (afterReadWriteSelect_shape ha.1 ha.2 hsock hst hr).prepend hio
      · cases hr
        exact .live hsock hst (by rw [List.append_nil]; exact hio)
    | close n =>
      cases hs
      exact (userClose_shape hsock hst n).prepend hio
    | write bytes =>
      cases hs
      exact .live hsock hst hio

/-- **Over every run**: the accepted descriptor is closed once, at the end, `_OnClose` is called at
most once, after it, with `_userclose` exactly where the local side has called `Close`, and nothing
is sent or received afterwards. -/
theorem run_shape {own : δ} {s : State δ}
    (h : Run (step V) (Careful V) { fsm := new fd own } s) : Shape fd s.fsm s.log :=
  h.keep (fun _ _ _ hp ha hs => step_shape hp ha hs) (Shape.new fd own)

theorem run_shape_close :
    Shape 7 (userClose (new 7 ()) true).1 (userClose (new 7 ()) true).2 :=
  have hrun : Run (step (⟨fun _ d => (d, none), fun _ _ d => (d, none), fun _ _ d => (d, none)⟩ :
      Callbacks Unit Unit)) (Careful _) { fsm := new 7 () }
      ⟨(userClose (new 7 ()) true).1, (userClose (new 7 ()) true).2⟩ :=
    Run.one (a := .close true) trivial rfl
  run_shape hrun

/-- a machine closed by its first `_OnAccept` -/
def closing : Callbacks Unit Unit where
  onAccept := fun _ d => (d, some true)
  onRecv := fun _ _ d => (d, none)
  onSend := fun _ _ d => (d, none)

/-- closed in `_OnAccept` a machine goes on without a socket -/
theorem closed_goes_on :
    ∃ s, exec (step closing) { fsm := new 7 () } [.preSelect ()] = some s ∧
      s.fsm.sock_ = none ∧ s.fsm.status_ = .kReadWrite :=
  ⟨_, rfl, rfl, rfl⟩

end

/-! ## the bytes -/

def sentBytes (calls : List Call) : Bytes :=
  calls.flatMap fun
    | .send bytes => bytes
    | _ => []

def recvBytes (calls : List Call) : Bytes :=
  calls.flatMap fun
    | .recv bytes => bytes
    | _ => []

/-- callbacks that only append to `send_buf_` and only take bytes from the front of `recv_buf_` -/
structure Orderly (V : Callbacks δ α) : Prop where
  onAccept : ∀ a d, d.send_buf_ <+: (V.onAccept a d).1.send_buf_ ∧
    (V.onAccept a d).1.recv_buf_ <:+ d.recv_buf_
  onSend : ∀ n a d, d.send_buf_ <+: (V.onSend n a d).1.send_buf_ ∧
    (V.onSend n a d).1.recv_buf_ <:+ d.recv_buf_
  onRecv : ∀ n a d, d.send_buf_ <+: (V.onRecv n a d).1.send_buf_ ∧
    (V.onRecv n a d).1.recv_buf_ <:+ d.recv_buf_

/-- a machine `f` becomes `f'` with these calls: what was sent or waits to be only grows at its end,
and what the buffer has of what is received is its last part -/
structure Stream (f f' : TcpServerFSM δ) (calls : List Call) : Prop where
  out : f.send_buf_ <+: sentBytes calls ++ f'.send_buf_
  inn : f'.recv_buf_ <:+ f.recv_buf_ ++ recvBytes calls

section
variable {V : Callbacks δ α} {f f' f'' : TcpServerFSM δ} {calls calls' : List Call}

theorem Stream.same (hs : f'.toDuplex = f.toDuplex) : Stream f f' [] := by
  constructor
  · rw [hs]
    exact List.prefix_refl _
  · rw [hs, recvBytes, List.flatMap_nil, List.append_nil]

theorem Stream.trans (h : Stream f f' calls) (h' : Stream f' f'' calls') :
    Stream f f'' (calls ++ calls') := by
  constructor
  · rw [sentBytes, List.flatMap_append, List.append_assoc]
    exact h.out.trans ((List.prefix_append_right_inj _).mpr h'.out)
  · rw [recvBytes, List.flatMap_append, ← List.append_assoc]
    obtain ⟨u, hu⟩ := h.inn
    refine h'.inn.trans ⟨u, ?_⟩
    rw [← List.append_assoc, hu]
    rfl

theorem Stream.quiet (hs : f'.toDuplex = f.toDuplex) (hc : sentBytes calls = [])
    (hr : recvBytes calls = []) : Stream f f' calls := by
  constructor
  · rw [hs, hc]
    exact List.prefix_refl _
  · rw [hs, hr, List.append_nil]

theorem close_stream (f : TcpServerFSM δ) (n : Bool) : Stream f (f.close n).1 (f.close n).2 := by
  unfold close
  split
  · exact .same rfl
  · cases n with
    | true => exact .quiet rfl rfl rfl
    | false => exact .quiet rfl rfl rfl

theorem userClose_stream (f : TcpServerFSM δ) (n : Bool) :
    Stream f (f.userClose n).1 (f.userClose n).2 :=
  have hcall : Stream f f [.Close n] := .quiet rfl rfl rfl
  hcall.trans (close_stream f n)

theorem fail_stream (f : TcpServerFSM δ) (e : Int) : Stream f (f.fail e).1 (f.fail e).2 :=
  .quiet rfl rfl rfl

theorem called_stream {r : Duplex δ × Option Bool} (ho : f.send_buf_ <+: r.1.send_buf_)
    (hi : r.1.recv_buf_ <:+ f.recv_buf_) : Stream f (f.called r).1 (f.called r).2 := by
  have h1 : Stream f { f with toDuplex := r.1 } [] := by
    constructor
    · exact ho
    · rw [recvBytes, List.flatMap_nil, List.append_nil]
      exact hi
  unfold called
  cases r.2 with
  | none => exact h1
  | some n => exact h1.trans (userClose_stream _ n)

theorem writePart_stream (hV : Orderly V) {sel : Selection} {o : Syscalls α}
    {r : (TcpServerFSM δ × List Call) × Bool} (h : f.writePart V sel o = some r) :
    Stream f r.1.1 r.1.2 := by
  unfold writePart at h
  split at h
  · split at h
    · rename_i ret _
      split at h
      · cases h
        have h1 : Stream f { f with send_buf_ := f.send_buf_.drop ret }
            [.send (f.send_buf_.take ret)] := by
          constructor
          · show f.send_buf_ <+: f.send_buf_.take ret ++ [] ++ f.send_buf_.drop ret
            rw [List.append_nil, List.take_append_drop]
          · rw [recvBytes, List.flatMap_singleton, List.append_nil]
        have h2 := hV.onSend ret o.onSend { f.toDuplex with send_buf_ := f.send_buf_.drop ret }
        exact h1.trans (called_stream h2.1 h2.2)
      · cases h
    · cases h
      exact .same rfl
    · cases h
      exact fail_stream f _
  · cases h
    exact .same rfl

theorem readPart_stream (hV : Orderly V) {sel : Selection} {o : Syscalls α}
    {r : (TcpServerFSM δ × List Call) × Bool} (h : f.readPart V sel o = some r) :
    Stream f r.1.1 r.1.2 := by
  unfold readPart at h
  split at h
  · split at h
    · rename_i bytes _
      split at h
      · cases h
      · cases h
        have h1 : Stream f { f with recv_buf_ := f.recv_buf_ ++ bytes } [.recv bytes] := by
          constructor
          · exact List.prefix_refl _
          · rw [recvBytes, List.flatMap_singleton]
        have h2 := hV.onRecv bytes.length o.onRecv
          { f.toDuplex with recv_buf_ := f.recv_buf_ ++ bytes }
        exact h1.trans (called_stream h2.1 h2.2)
    · cases h
      exact fail_stream f _
    · cases h
      exact .same rfl
    · cases h
      exact fail_stream f _
  · cases h
    exact .same rfl

theorem timePart_stream (f : TcpServerFSM δ) (sel : Selection) (o : Syscalls α) :
    Stream f (f.timePart sel o).1 (f.timePart sel o).2 := by
  unfold timePart
  split
  · exact fail_stream f _
  · exact .same rfl

theorem afterReadWriteSelect_stream (hV : Orderly V) {sel : Selection} {o : Syscalls α}
    {t : TcpServerFSM δ × List Call} (h : f.afterReadWriteSelect V sel o = some t) :
    Stream f t.1 t.2 := by
  unfold afterReadWriteSelect at h
  split at h
  · cases h
    exact fail_stream f _
  · obtain ⟨r, hr, h⟩ := Option.bind_eq_some_iff.mp h
    have h1 := writePart_stream hV hr
    split at h
    · cases h
      exact h1
    · obtain ⟨q, hq, rfl⟩ := Option.map_eq_some_iff.mp h
      have h2 := h1.trans (readPart_stream hV hq)
      split
      · exact h2
      · exact h2.trans (timePart_stream _ sel o)

theorem accept_stream (hV : Orderly V) (f : TcpServerFSM δ) (a : α) :
    Stream f { (f.called (V.onAccept a f.toDuplex)).1 with status_ := .kReadWrite }
      (f.called (V.onAccept a f.toDuplex)).2 := by
  have h := called_stream (f := f) (hV.onAccept a f.toDuplex).1 (hV.onAccept a f.toDuplex).2
  exact ⟨h.out, h.inn⟩

theorem preSelect_stream (hV : Orderly V) (f : TcpServerFSM δ) (a : α) :
    Stream f (f.preSelect V a).1 (f.preSelect V a).2.1 := by
  unfold preSelect
  by_cases hacc : f.status_ = .kAccept
  · rw [if_pos hacc]
    dsimp only
    rw [if_pos rfl]
    have h := accept_stream hV f a
    exact ⟨h.out, h.inn⟩
  · rw [if_neg hacc]
    dsimp only
    split
    · exact .same rfl
    · exact .same rfl

/-- **One step** of a run: the calls it adds, and the stream between its two ends. -/
theorem step_stream (hV : Orderly V) {s s' : State δ} {a : Act α} (h : step V s a = some s') :
    ∃ calls, s'.log = s.log ++ calls ∧ Stream s.fsm s'.fsm calls := by
  cases a with
  | preSelect a =>
    cases h
    exact ⟨_, rfl, preSelect_stream hV _ a⟩
  | afterSelect sel o =>
    obtain ⟨r, hr, rfl⟩ := Option.map_eq_some_iff.mp h
    refine ⟨_, rfl, ?_⟩
    unfold afterSelect at hr
    split at hr
    · exact afterReadWriteSelect_stream hV hr
    · cases hr
      exact .same rfl
  | close n =>
    cases h
    exact ⟨_, rfl, userClose_stream _ n⟩
  | write bytes =>
    cases h
    refine ⟨[], (List.append_nil _).symm, ⟨List.prefix_append _ _, ?_⟩⟩
    rw [recvBytes, List.flatMap_nil, List.append_nil]

/-- the calls since `s`, and what they did with the bytes -/
def StreamSince (s s' : State δ) : Prop := ∃ calls, s'.log = s.log ++ calls ∧ Stream s.fsm s'.fsm calls

theorem StreamSince.refl (s : State δ) : StreamSince s s := ⟨[], (List.append_nil _).symm, .same rfl⟩

theorem StreamSince.step (hV : Orderly V) {s t t' : State δ} (h : StreamSince s t) {a : Act α}
    (hs : step V t a = some t') : StreamSince s t' := by
  obtain ⟨calls, hlog, hst⟩ := h
  obtain ⟨calls', hlog', hst'⟩ := step_stream hV hs
  exact ⟨calls ++ calls', by rw [hlog', hlog, List.append_assoc], hst.trans hst'⟩

/-- **Along every run** what is queued goes out in its order, with nothing lost, added in between or
sent twice, and what the receive buffer has is the end of what came in. -/
theorem run_stream (hV : Orderly V) {s s' : State δ} (h : AnyRun (step V) s s') :
    ∃ calls, s'.log = s.log ++ calls ∧ Stream s.fsm s'.fsm calls :=
  h.keep (P := StreamSince s) (fun _ _ _ ht _ hs => ht.step hV hs) (.refl s)

end

/-- callbacks that answer every byte with the same byte -/
def echo : Callbacks Unit Unit where
  onAccept := fun _ d => (d, none)
  onRecv := fun _ _ d =>
    ({ d with send_buf_ := d.send_buf_ ++ d.recv_buf_, recv_buf_ := [] }, none)
  onSend := fun _ _ d => (d, none)

theorem echo_orderly : Orderly echo where
  onAccept := fun _ _ => ⟨List.prefix_refl _, List.suffix_refl _⟩
  onSend := fun _ _ _ => ⟨List.prefix_refl _, List.suffix_refl _⟩
  onRecv := fun _ _ _ => ⟨List.prefix_append _ _, List.nil_suffix⟩

def ready7 : Selection :=
  { read := fun fd => fd == 7, write := fun fd => fd == 7, exception := fun _ => false }

def echoRun : List (Act Unit) :=
  [.preSelect (), .write [1, 2],
    .afterSelect ready7 { send := .sent 1, onSend := (), recv := .data [5], onRecv := () }]

theorem run_stream_echo :
    ∃ s, exec (step echo) { fsm := new 7 () } echoRun = some s ∧
      ∃ calls, s.log = [] ++ calls ∧ Stream (new 7 ()) s.fsm calls :=
  ⟨_, rfl, run_stream echo_orderly (s := { fsm := new 7 () }) (Run.of_exec (l := echoRun) rfl)⟩

example : (exec (step echo) { fsm := new 7 () } echoRun).map
    (fun s => (s.log, s.fsm.send_buf_)) = some ([.send [1], .recv [5]], [2, 5]) := rfl

end

end TcpServerFSM
