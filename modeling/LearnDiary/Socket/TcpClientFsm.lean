import LearnDiary.Base.Bytes
import LearnDiary.Lib.Runs
import Mathlib.Data.Nat.Notation

/-!
# `TcpClientFSM` (comm/socket/tcpclient_fsm.cc)

The machine of one connection.  Its virtual callbacks are a parameter: they work on the buffers, on
`request_send_` and on the data of the derived class.  What the system calls, `select` and the clock
give is part of the step; each function also lists what it calls outside, in order.

* `Pre`, `pre_of`       what `PreSelect` does to status and socket;
* `Advance`, `advance_of`  what `AfterSelect` does to them, before it reports the end;
* `Close`, `close_of`   what `Close` does.
-/

/-- what the callbacks of a derived class with data `δ` work on -/
structure Bufs (δ : Type) where
  own : δ
  request_send_ : Bool := false
  send_buf_ : Bytes := []
  recv_buf_ : Bytes := []

/-- the callbacks of a derived class; `α` is what the outside answers to one of them, and there is no
outcome where a callback does not return or follows a null pointer -/
structure Virtual (δ α : Type) where
  onConnected : α → Bufs δ → Bufs δ
  onRequestSend : α → Bufs δ → Option (Bufs δ)
  onSend : α → Bufs δ → Bufs δ
  onRecv : α → Bufs δ → Option (Bufs δ)

inductive TSocketStatus where
  | EStart
  | EConnecting
  | EReadWrite
  | EEnd
deriving DecidableEq

structure TcpClientFSM (δ : Type) extends Bufs δ where
  status_ : TSocketStatus := .EStart
  last_status_ : TSocketStatus := .EStart
  error_ : Int := 0
  remote_close_ : Bool := false
  /-- none is `INVALID_SOCKET` -/
  sock_ : Option Nat := none

inductive FsmCall where
  | socket (fd : Nat)
  | socket_close (fd : Nat)
  | _OnClose (_status : TSocketStatus) (_error : Int) (_userclose : Bool)
deriving DecidableEq

/-- how the calls of `PreConnectSelect` go: `socket` fails, or it gives a socket and then
`socket_set_nobio` and `connect` fail or not; a `connect` under way counts as none -/
inductive ConnectCalls where
  | failed (errno : Int)
  | made (fd : Nat) (nobio connect : Option Int)
deriving DecidableEq

/-- `send` of what stands in the buffer -/
inductive SendResult where
  | sent (ret : Nat)
  | again
  | failed (errno : Int)
deriving DecidableEq

inductive RecvResult where
  | data (bytes : Bytes)
  | closed
  | again
  | failed (errno : Int)
deriving DecidableEq

/-- what `AfterSelect` meets: the exception set with the error read for it, `socket_error`, the write
and the read set with what `send`, `recv` and the outside give, and the time that is left -/
structure Selected (α : Type) where
  exception : Option Int := none
  error : Int := 0
  write : Option (SendResult × α) := none
  read : Option (RecvResult × α) := none
  timeout : Int := 1

def ETIMEDOUT : Int := 110

namespace TcpClientFSM
variable {δ α : Type}

/-- `error_ = errno; last_status_ = status_; status_ = EEnd` -/
def finish (f : TcpClientFSM δ) (errno : Int) : TcpClientFSM δ :=
  { f with error_ := errno, last_status_ := f.status_, status_ := .EEnd }

def close (f : TcpClientFSM δ) (_notify : Bool) : TcpClientFSM δ × List FsmCall :=
  match f.sock_ with
  | none => (f, [])
  | some fd =>
    if f.remote_close_ || f.error_ != 0 then ({ f with sock_ := none }, [.socket_close fd])
    else
      let f := { f.finish 0 with sock_ := none }
      (f, .socket_close fd :: if _notify then [._OnClose f.last_status_ 0 f.remote_close_] else [])

/-- `PreConnectSelect`; an error has a number -/
def preConnectSelect (f : TcpClientFSM δ) : ConnectCalls → Option (TcpClientFSM δ × List FsmCall)
  | .failed errno =>
    if errno = 0 then none else some (f.finish errno, [._OnClose f.status_ errno false])
  | .made fd nobio connect =>
    if nobio = some 0 ∨ connect = some 0 then none
    else
      let f : TcpClientFSM δ := { f with sock_ := some fd, error_ := nobio.getD f.error_ }
      if f.error_ ≠ 0 then some (f.finish f.error_, [.socket fd])
      else
        let f : TcpClientFSM δ :=
          { f with error_ := connect.getD f.error_, last_status_ := f.status_ }
        some ({ f with status_ := if f.error_ ≠ 0 then .EEnd else .EConnecting }, [.socket fd])

/-- `PreSelect`: the sets are left out -/
def preSelect (f : TcpClientFSM δ) (o : ConnectCalls) : Option (TcpClientFSM δ × List FsmCall) :=
  match f.status_ with
  | .EStart => f.preConnectSelect o
  | _ => some (f, [])

def afterConnectSelect (V : Virtual δ α) (f : TcpClientFSM δ) (o : Selected α) : TcpClientFSM δ :=
  match o.exception with
  | some e => f.finish e
  | none =>
    if o.error ≠ 0 then f.finish o.error
    else
      let f := { f with error_ := o.error }
      match o.write with
      | some (_, a) =>
        { f with
          toBufs := V.onConnected a f.toBufs, last_status_ := f.status_, status_ := .EReadWrite }
      | none => if o.timeout ≤ 0 then f.finish ETIMEDOUT else f

/-- the request put into an empty buffer before it is sent -/
def requestSend (V : Virtual δ α) (f : TcpClientFSM δ) (a : α) : Option (TcpClientFSM δ) :=
  if f.request_send_ = true ∧ f.send_buf_ = [] then
    (V.onRequestSend a { f.toBufs with request_send_ := false }).map fun b => { f with toBufs := b }
  else some f

/-- the part of `AfterReadWriteSelect` for the write set; `send` of an empty buffer gives 0 and leaves
any number in `errno` -/
def writePart (V : Virtual δ α) (f : TcpClientFSM δ) : Option (SendResult × α) → Option (TcpClientFSM δ)
  | none => some f
  | some (r, a) =>
    (f.requestSend V a).bind fun f =>
      match r with
      | .sent ret =>
        if 0 < ret ∧ ret ≤ f.send_buf_.length then
          some { f with toBufs := V.onSend a { f.toBufs with send_buf_ := f.send_buf_.drop ret } }
        else none
      | .again => some f
      | .failed errno => if errno ≠ 0 ∨ f.send_buf_ = [] then some (f.finish errno) else none

/-- the part for the read set -/
def readPart (V : Virtual δ α) (f : TcpClientFSM δ) : Option (RecvResult × α) → Option (TcpClientFSM δ)
  | none => some f
  | some (.data bytes, a) =>
    if bytes = [] then none
    else
      (V.onRecv a { f.toBufs with recv_buf_ := f.recv_buf_ ++ bytes }).map fun b =>
        { f with toBufs := b }
  | some (.closed, _) => some { f.finish 0 with remote_close_ := true }
  | some (.again, _) => some f
  | some (.failed errno, _) => if errno = 0 then none else some (f.finish errno)

def afterReadWriteSelect (V : Virtual δ α) (f : TcpClientFSM δ) (o : Selected α) :
    Option (TcpClientFSM δ) :=
  match o.exception with
  | some e => some (f.finish e)
  | none =>
    (f.writePart V o.write).bind fun f =>
      -- a `send` that failed has returned
      if f.status_ = .EEnd then some f
      else
        (f.readPart V o.read).map fun f =>
          if f.status_ = .EEnd then f
          else if o.write.isNone ∧ o.read.isNone ∧ o.timeout ≤ 0 then f.finish ETIMEDOUT
          else f

/-- the last line of `AfterSelect` -/
def report (f : TcpClientFSM δ) : List FsmCall :=
  if f.status_ = .EEnd ∧ f.sock_.isSome then [._OnClose f.last_status_ f.error_ false] else []

/-- the part of `AfterSelect` for the status -/
def advance (V : Virtual δ α) (f : TcpClientFSM δ) (o : Selected α) : Option (TcpClientFSM δ) :=
  match f.status_ with
  | .EConnecting => some (f.afterConnectSelect V o)
  | .EReadWrite => f.afterReadWriteSelect V o
  | .EStart | .EEnd => some f

def afterSelect (V : Virtual δ α) (f : TcpClientFSM δ) (o : Selected α) :
    Option (TcpClientFSM δ × List FsmCall) :=
  (f.advance V o).map fun f => (f, f.report)

/-! ## what the functions do to status and socket -/

/-- what `PreSelect` does -/
inductive Pre (f f' : TcpClientFSM δ) : List FsmCall → Prop
  | idle (hs : f.status_ ≠ .EStart) (he : f' = f) : Pre f f' []
  | failed {errno : Int} (hs : f.status_ = .EStart) (hs' : f'.status_ = .EEnd)
      (hsock : f'.sock_ = f.sock_) : Pre f f' [._OnClose f.status_ errno false]
  | ends {fd : Nat} (hs : f.status_ = .EStart) (hs' : f'.status_ = .EEnd)
      (hsock : f'.sock_ = some fd) (herr : f'.error_ ≠ 0) : Pre f f' [.socket fd]
  | connecting {fd : Nat} (hs : f.status_ = .EStart) (hs' : f'.status_ = .EConnecting)
      (hsock : f'.sock_ = some fd) (herr : f'.error_ = 0)
      (hrem : f'.remote_close_ = f.remote_close_) (hbufs : f'.toBufs = f.toBufs) :
      Pre f f' [.socket fd]

/-- what `AfterSelect` does before its last line -/
inductive Advance (f f' : TcpClientFSM δ) : Prop
  | idle (hs : f.status_ = .EStart ∨ f.status_ = .EEnd) (he : f' = f)
  | on (hs : f.status_ = .EConnecting ∨ f.status_ = .EReadWrite)
      (hs' : f'.status_ = .EConnecting ∨ f'.status_ = .EReadWrite) (hsock : f'.sock_ = f.sock_)
      (herr : f'.error_ = f.error_ ∨ f'.error_ = 0) (hrem : f'.remote_close_ = f.remote_close_)
  | ends (hs : f.status_ = .EConnecting ∨ f.status_ = .EReadWrite) (hs' : f'.status_ = .EEnd)
      (hlast : f'.last_status_ = f.status_) (hsock : f'.sock_ = f.sock_)

/-- what the parts for one of the sets do: they change buffers, or end the machine -/
inductive Part (f f' : TcpClientFSM δ) : Prop
  | on (hs : f'.status_ = f.status_) (hsock : f'.sock_ = f.sock_) (herr : f'.error_ = f.error_)
      (hrem : f'.remote_close_ = f.remote_close_)
  | ends (hs' : f'.status_ = .EEnd) (hlast : f'.last_status_ = f.status_)
      (hsock : f'.sock_ = f.sock_)

/-- what `Close` does -/
inductive Close (f f' : TcpClientFSM δ) (_notify : Bool) : List FsmCall → Prop
  | nothing (hsock : f.sock_ = none) (he : f' = f) : Close f f' _notify []
  | silent {fd : Nat} (hsock : f.sock_ = some fd) (hend : f.remote_close_ = true ∨ f.error_ ≠ 0)
      (hsock' : f'.sock_ = none) (hs : f'.status_ = f.status_) : Close f f' _notify [.socket_close fd]
  | closes {fd : Nat} (hsock : f.sock_ = some fd) (hrem : f.remote_close_ = false)
      (herr : f.error_ = 0) (hsock' : f'.sock_ = none) (hs : f'.status_ = .EEnd) :
      Close f f' _notify
        (.socket_close fd :: if _notify then [._OnClose f.status_ 0 f.remote_close_] else [])

section
variable {f f' : TcpClientFSM δ} {V : Virtual δ α} {calls : List FsmCall}

theorem pre_of {o : ConnectCalls} (h : f.preSelect o = some (f', calls)) : Pre f f' calls := by
  unfold preSelect at h
  split at h
  · rename_i hs
    unfold preConnectSelect at h
    split at h
    · split at h
      · cases h
      · cases h
        exact .failed hs rfl rfl
    · split at h
      · cases h
      rename_i fd nobio connect hne
      dsimp only at h
      split at h
      · rename_i herr
        cases h
        exact .ends hs rfl rfl herr
      · cases h
        by_cases hc : connect.getD (nobio.getD f.error_) = 0
        · refine .connecting hs ?_ rfl hc rfl rfl
          exact if_neg (not_not_intro hc)
        · exact .ends hs (if_pos hc) rfl hc
  · rename_i hs
    cases h
    exact .idle hs rfl

theorem close_of {notify : Bool} (h : f.close notify = (f', calls)) : Close f f' notify calls := by
  unfold close at h
  split at h
  · rename_i hsock
    cases h
    exact .nothing hsock rfl
  · rename_i fd hsock
    split at h
    · rename_i hend
      cases h
      refine .silent hsock ?_ rfl rfl
      simpa using hend
    · rename_i hend
      cases h
      have hboth : f.remote_close_ = false ∧ f.error_ = 0 := by simpa using hend
      exact .closes hsock hboth.1 hboth.2 rfl rfl

theorem afterConnect_of (o : Selected α) (hs : f.status_ = .EConnecting) :
    Advance f (f.afterConnectSelect V o) := by
  unfold afterConnectSelect
  split
  · exact .ends (Or.inl hs) rfl rfl rfl
  split
  · exact .ends (Or.inl hs) rfl rfl rfl
  rename_i herr
  dsimp only
  split
  · exact .on (Or.inl hs) (Or.inr rfl) rfl (Or.inr (not_not.mp herr)) rfl
  · split
    · exact .ends (Or.inl hs) rfl rfl rfl
    · exact .on (Or.inl hs) (Or.inl hs) rfl (Or.inr (not_not.mp herr)) rfl

theorem requestSend_of {a : α} (h : f.requestSend V a = some f') :
    ∃ b, f' = { f with toBufs := b } := by
  unfold requestSend at h
  split at h
  · obtain ⟨b, -, rfl⟩ := Option.map_eq_some_iff.mp h
    exact ⟨b, rfl⟩
  · cases h
    exact ⟨f.toBufs, rfl⟩

theorem writePart_of {w : Option (SendResult × α)} (h : f.writePart V w = some f') : Part f f' := by
  unfold writePart at h
  split at h
  · cases h
    exact .on rfl rfl rfl rfl
  obtain ⟨g, hg, h⟩ := Option.bind_eq_some_iff.mp h
  obtain ⟨b, rfl⟩ := requestSend_of hg
  dsimp only at h
  split at h
  · split at h
    · cases h
      exact .on rfl rfl rfl rfl
    · cases h
  · cases h
    exact .on rfl rfl rfl rfl
  · split at h
    · cases h
      exact .ends rfl rfl rfl
    · cases h

theorem readPart_of {r : Option (RecvResult × α)} (h : f.readPart V r = some f') : Part f f' := by
  unfold readPart at h
  split at h
  · cases h
    exact .on rfl rfl rfl rfl
  · split at h
    · cases h
    · obtain ⟨b, -, rfl⟩ := Option.map_eq_some_iff.mp h
      exact .on rfl rfl rfl rfl
  · cases h
    exact .ends rfl rfl rfl
  · cases h
    exact .on rfl rfl rfl rfl
  · split at h
    · cases h
    · cases h
      exact .ends rfl rfl rfl

theorem afterReadWrite_of {o : Selected α} (hs : f.status_ = .EReadWrite)
    (h : f.afterReadWriteSelect V o = some f') : Advance f f' := by
  unfold afterReadWriteSelect at h
  split at h
  · cases h
    exact .ends (Or.inr hs) rfl rfl rfl
  obtain ⟨g, hg, h⟩ := Option.bind_eq_some_iff.mp h
  cases writePart_of hg with
  | ends hs' hlast hsock =>
    rw [if_pos hs'] at h
    cases h
    exact .ends (Or.inr hs) hs' hlast hsock
  | on hsg hsock herr hrem =>
    have hg' : g.status_ = .EReadWrite := hsg.trans hs
    rw [if_neg (by rw [hg']; decide)] at h
    obtain ⟨k, hk, h⟩ := Option.map_eq_some_iff.mp h
    cases readPart_of hk with
    | ends hs' hlast hsock' =>
      rw [if_pos hs'] at h
      cases h
      exact .ends (Or.inr hs) hs' (hlast.trans hsg) (hsock'.trans hsock)
    | on hsk hsock' herr' hrem' =>
      have hk' : k.status_ = .EReadWrite := hsk.trans hg'
      rw [if_neg (by rw [hk']; decide)] at h
      split at h
      · cases h
        exact .ends (Or.inr hs) rfl (hsk.trans hsg) (hsock'.trans hsock)
      · cases h
        exact .on (Or.inr hs) (Or.inr hk') (hsock'.trans hsock) (Or.inl (herr'.trans herr))
          (hrem'.trans hrem)

theorem advance_of {o : Selected α} (h : f.advance V o = some f') : Advance f f' := by
  unfold advance at h
  split at h
  · rename_i hs
    cases h
    exact afterConnect_of o hs
  · rename_i hs
    exact afterReadWrite_of hs h
  · rename_i hs
    cases h
    exact .idle (Or.inl hs) rfl
  · rename_i hs
    cases h
    exact .idle (Or.inr hs) rfl

end

end TcpClientFSM
