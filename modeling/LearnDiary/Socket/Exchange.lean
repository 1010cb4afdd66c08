import LearnDiary.Lib.Runs
import LearnDiary.Socket.CheckFsm

/-!
# SOCKS5 against a peer (comm/socket/complexconnect.cc)

A connection through SOCKS5 against a peer that answers each request it is sent.  A step is one result
of `recv`, of any size up to what is in flight; a request goes out as soon as it is asked for.

* `course`                  what a complete reply leads to;
* `write_passed`            the request behind a reply that is passed;
* `step_wait`, `step_fire`  a piece that leaves the reply incomplete, and one that completes it.
-/

namespace Socks5
open CheckFsm Runs

structure Observer where
  observer_ : Bool
  onShouldVerify : Bool
  onVerifySend : Bool
  sendBuf : Bytes
  onVerifyRecv : Bytes → Bool

/-- what the observer answers to a callback that shows it `buf` -/
def Observer.answers (o : Observer) (buf : Bytes) : Answers :=
  { onShouldVerify := o.onShouldVerify, onVerifySend := o.onVerifySend, sendBuf := o.sendBuf,
    onVerifyRecv := o.onVerifyRecv buf }

/-- `errno` is what a `send` of nothing finds there, where it is not `EWOULDBLOCK` -/
structure Setup where
  p : Proxied
  o : Observer
  errno : Option Int

/-- `flight` is sent and not yet received, `replies` are what the requests to come are answered with;
`seen` are the check states in order, `presented` the buffers shown to `OnVerifyRecv` -/
structure Exchange where
  fsm : TcpClientFSM Check
  flight : Bytes
  replies : List Bytes
  seen : List TCheckStatus
  presented : List Bytes

def note (f f' : TcpClientFSM Check) : List TCheckStatus :=
  if f'.own.check_status_ = f.own.check_status_ then [] else [f'.own.check_status_]

/-- the machine is taken out of the loop -/
def Exchange.checked (x : Exchange) : Bool :=
  x.fsm.own.check_status_ == .ECheckOK || x.fsm.own.check_status_ == .ECheckFail ||
    x.fsm.status_ == .EEnd

/-- the part for the write set, which `PreReadWriteSelect` asks for; all is sent at once -/
def write (u : Setup) (x : Exchange) : Option Exchange :=
  if x.fsm.request_send_ = true ∨ x.fsm.send_buf_ ≠ [] then
    let a := u.o.answers []
    (x.fsm.requestSend (socks5 u.p) a).bind fun g =>
      if g.send_buf_ = [] then
        (x.fsm.writePart (socks5 u.p) (some (u.errno.elim .again .failed, a))).map fun f =>
          { x with fsm := f, seen := x.seen ++ note x.fsm f }
      else
        (x.fsm.writePart (socks5 u.p) (some (.sent g.send_buf_.length, a))).map fun f =>
          { x with
            fsm := f, seen := x.seen ++ note x.fsm f
            flight := x.flight ++ x.replies.headD [], replies := x.replies.tail }
  else some x

/-- the part for the read set, `recv` giving `n` bytes.  The code offers `recv` the free part of its
buffer, 8 KiB at least; here `n` is any number, so that the cuts of the code are among these. -/
def read (u : Setup) (x : Exchange) (n : Nat) : Option Exchange :=
  if x.checked = true ∨ n = 0 ∨ x.flight.length < n then none
  else
    let buf := x.fsm.recv_buf_ ++ x.flight.take n
    (x.fsm.readPart (socks5 u.p) (some (.data (x.flight.take n), u.o.answers buf))).map fun f =>
      { x with
        fsm := f, seen := x.seen ++ note x.fsm f, flight := x.flight.drop n
        presented := x.presented ++
          if x.fsm.own.check_status_ = .EProxyConnSvrSucc ∧ x.fsm.own.observer_ = true then [buf]
          else [] }

def step (u : Setup) (x : Exchange) (n : Nat) : Option Exchange :=
  (read u x n).bind fun x => if x.checked then some x else write u x

/-- connected, before the first request -/
def opened (u : Setup) (replies : List Bytes) : Exchange where
  fsm := { toBufs := (socks5 u.p).onConnected (u.o.answers []) (start u.o), status_ := .EReadWrite }
  flight := []
  replies
  seen := [.ECheckInit, .EConnProxySucc]
  presented := []
where
  start (o : Observer) : Bufs Check := { own := ⟨o.observer_, .ECheckInit⟩ }

/-- the exchange with `recv` giving these numbers of bytes in order -/
def run (u : Setup) (replies : List Bytes) (cut : List Nat) : Option Exchange :=
  (write u (opened u replies)).bind fun x => exec (step u) x cut

/-! ## the receive states -/

inductive Stage where
  | greet
  | auth
  | conn
  | verify
deriving DecidableEq

def Stage.status : Stage → TCheckStatus
  | .greet => .EProxySocks5GreetReq
  | .auth => .EProxySocks5AuthReq
  | .conn => .EProxySocks5ConnSvrReq
  | .verify => .EProxyConnSvrSucc

/-- the length test of a receive state passes -/
def ready : Stage → Bytes → Bool
  | .greet, buf | .auth, buf => decide (2 ≤ buf.length)
  | .conn, buf => !connReplyShort buf
  | .verify, buf => decide (1 ≤ buf.length)

/-- user or password cannot be sent -/
def unfit (p : Proxied) : Prop :=
  p.username_ = [] ∨ p.password_ = [] ∨ 255 < p.username_.length ∨ 255 < p.password_.length

instance (p : Proxied) : Decidable (unfit p) := inferInstanceAs (Decidable (_ ∨ _))

/-- the reply says no -/
def refused : Stage → Bytes → Bool
  | .greet, buf => buf.getD 0 0 != kSocks5Version ||
      (buf.getD 1 0 != kSocks5NoAuth && buf.getD 1 0 != kSocks5UsrNamePwdAuth)
  | .auth, buf => buf.getD 0 0 != kSocks5AuthVersion || buf.getD 1 0 != kSocks5RespStatus
  | .conn, buf => buf.getD 0 0 != kSocks5Version || buf.getD 1 0 != kSocks5RespStatus
  | .verify, _ => false

/-- the state a reply that does not say no leads to -/
def passed (u : Setup) : Stage → Bytes → TCheckStatus
  | .greet, buf => if buf.getD 1 0 = kSocks5NoAuth then .EProxySocks5AuthSucc else .EProxySocks5GreetSucc
  | .auth, _ => .EProxySocks5AuthSucc
  | .conn, _ => if u.o.observer_ && u.o.onShouldVerify then .EProxyConnSvrSucc else .ECheckOK
  | .verify, buf => if u.o.onVerifyRecv buf then .ECheckOK else .ECheckFail

/-- the check states the request after it leads through, and the receive state they come to -/
def requested (u : Setup) : TCheckStatus → List TCheckStatus × Option Stage
  | .EProxySocks5GreetSucc =>
    if unfit u.p then ([.ECheckFail], none) else ([.EProxySocks5AuthReq], some .auth)
  | .EProxySocks5AuthSucc => ([.EProxySocks5ConnSvrReq], some .conn)
  | .EProxyConnSvrSucc =>
    if u.o.onVerifySend = false then ([.ECheckFail], none)
    else if u.o.sendBuf = [] ∧ u.errno.isSome then ([], none)
    else ([], some .verify)
  | _ => ([], none)

/-- the check states a reply with its length leads through, and the receive state they come to -/
def course (u : Setup) (X : Stage) (buf : Bytes) : List TCheckStatus × Option Stage :=
  if refused X buf then ([.ECheckFail], none)
  else
    let s := passed u X buf
    (s :: (requested u s).1, (requested u s).2)

def shown (X : Stage) (buf : Bytes) : List Bytes := if X = .verify then [buf] else []

def asks (u : Setup) (X : Stage) : Bool := !(X == .verify && u.o.sendBuf == [])

/-- what is in flight and still to come where a receive state is entered -/
def onward (u : Setup) (X : Stage) (flight : Bytes) (replies : List Bytes) : Bytes × List Bytes :=
  if asks u X then (flight ++ replies.headD [], replies.tail) else (flight, replies)

/-- the exchange waits for the reply of a receive state -/
structure At (u : Setup) (X : Stage) (x : Exchange) : Prop where
  open_ : x.fsm.status_ = .EReadWrite
  status : x.fsm.own.check_status_ = X.status
  observer : x.fsm.own.observer_ = u.o.observer_
  request : x.fsm.request_send_ = false
  sent : x.fsm.send_buf_ = []
  watched : X = .verify → u.o.observer_ = true
  short : ready X x.fsm.recv_buf_ = false

section
variable {u : Setup} {X : Stage} {x : Exchange} {n : Nat}

theorem At.unchecked (h : At u X x) : x.checked = false := by
  unfold Exchange.checked
  rw [h.status, h.open_]
  cases X <;> rfl

section
variable {b : Bufs Check}

theorem onRecv_wait (hst : b.own.check_status_ = X.status) (hr : ready X b.recv_buf_ = false)
    (hne : b.recv_buf_ ≠ []) (a : Answers) : (socks5 u.p).onRecv a b = some b := by
  unfold socks5
  cases X with
  | greet | auth =>
    have hlen : b.recv_buf_.length < 2 := by simpa [ready] using hr
    simp only [hst, Stage.status]
    rw [if_pos hlen]
  | conn =>
    have hshort : connReplyShort b.recv_buf_ = true := by simpa [ready] using hr
    simp only [hst, Stage.status]
    rw [if_pos hshort]
  | verify =>
    have hnil : b.recv_buf_ = [] := by simpa [ready] using hr
    exact absurd hnil hne

theorem onRecv_refused (hst : b.own.check_status_ = X.status)
    (hr : ready X b.recv_buf_ = true) (href : refused X b.recv_buf_ = true) (a : Answers) :
    ∃ b', (socks5 u.p).onRecv a b = some b' ∧ b'.own.check_status_ = .ECheckFail := by
  unfold socks5
  cases X with
  | greet =>
    have hlen : ¬ b.recv_buf_.length < 2 := Nat.not_lt.mpr (of_decide_eq_true hr)
    simp only [hst, Stage.status]
    rw [if_neg hlen]
    split
    · exact ⟨_, rfl, rfl⟩
    rename_i hver
    have hm : b.recv_buf_.getD 0 0 ≠ kSocks5Version ∨ b.recv_buf_.getD 1 0 ≠ kSocks5NoAuth ∧
        b.recv_buf_.getD 1 0 ≠ kSocks5UsrNamePwdAuth := by
      simpa [refused] using href
    replace hm := hm.resolve_left hver
    rw [if_neg hm.1, if_neg hm.2]
    exact ⟨_, rfl, rfl⟩
  | auth =>
    have hlen : ¬ b.recv_buf_.length < 2 := Nat.not_lt.mpr (of_decide_eq_true hr)
    simp only [hst, Stage.status]
    rw [if_neg hlen, if_pos (by simpa [refused] using href)]
    exact ⟨_, rfl, rfl⟩
  | conn =>
    have hshort : ¬ connReplyShort b.recv_buf_ = true := by simpa [ready] using hr
    simp only [hst, Stage.status]
    rw [if_neg hshort, if_pos (by simpa [refused] using href)]
    exact ⟨_, rfl, rfl⟩
  | verify => cases href

theorem onRecv_passes (hst : b.own.check_status_ = X.status) (hX : X ≠ .verify)
    (hobs : b.own.observer_ = u.o.observer_) (hr : ready X b.recv_buf_ = true)
    (href : refused X b.recv_buf_ = false) :
    (socks5 u.p).onRecv (u.o.answers b.recv_buf_) b = some
      ({ b with request_send_ := true, recv_buf_ := [] }.setStatus (passed u X b.recv_buf_)) := by
  unfold socks5
  cases X with
  | greet =>
    have hlen : ¬ b.recv_buf_.length < 2 := Nat.not_lt.mpr (of_decide_eq_true hr)
    have hgood : b.recv_buf_.getD 0 0 = kSocks5Version ∧
        (b.recv_buf_.getD 1 0 ≠ kSocks5NoAuth →
          b.recv_buf_.getD 1 0 = kSocks5UsrNamePwdAuth) := by
      simpa [refused] using href
    simp only [hst, Stage.status, passed]
    rw [if_neg hlen, if_neg (not_not_intro hgood.1)]
    split
    · rfl
    · rename_i hm
      rw [if_pos (hgood.2 hm)]
  | auth =>
    have hlen : ¬ b.recv_buf_.length < 2 := Nat.not_lt.mpr (of_decide_eq_true hr)
    have hgood := Bool.eq_false_iff.mp href
    simp only [hst, Stage.status, passed]
    rw [if_neg hlen, if_neg (by simpa [refused] using hgood)]
  | conn =>
    have hshort : ¬ connReplyShort b.recv_buf_ = true := by simpa [ready] using hr
    have hgood := Bool.eq_false_iff.mp href
    simp only [hst, Stage.status, passed]
    rw [if_neg hshort, if_neg (by simpa [refused] using hgood)]
    unfold connected
    rw [hobs]
    rfl
  | verify => exact absurd rfl hX

theorem onRecv_verify (hst : b.own.check_status_ = X.status) (hX : X = .verify)
    (hobs : b.own.observer_ = true) :
    (socks5 u.p).onRecv (u.o.answers b.recv_buf_) b = some
      (b.setStatus (passed u X b.recv_buf_)) := by
  subst hX
  unfold socks5
  simp only [hst, Stage.status, passed]
  unfold verifyRecv
  rw [hobs]
  rfl

end

/-- a piece as `_OnRecv` finds it -/
def buffer (x : Exchange) (n : Nat) : Bytes := x.fsm.recv_buf_ ++ x.flight.take n

theorem buffer_fresh (h : x.fsm.recv_buf_ = []) (n : Nat) : buffer x n = x.flight.take n := by
  unfold buffer
  rw [h, List.nil_append]

theorem take_ne_nil (h0 : 0 < n) (hn : n ≤ x.flight.length) : x.flight.take n ≠ [] := by
  intro h
  have hlen := congrArg List.length h
  rw [List.length_take, List.length_nil] at hlen
  omega

theorem read_of (hA : At u X x) (h0 : 0 < n) (hn : n ≤ x.flight.length) {b : Bufs Check}
    (hb : (socks5 u.p).onRecv (u.o.answers (buffer x n))
      { x.fsm.toBufs with recv_buf_ := buffer x n } = some b) :
    read u x n = some { x with
      fsm := { x.fsm with toBufs := b }, seen := x.seen ++ note x.fsm { x.fsm with toBufs := b }
      flight := x.flight.drop n, presented := x.presented ++ shown X (buffer x n) } := by
  unfold read
  rw [if_neg (by simp [hA.unchecked]; omega)]
  unfold TcpClientFSM.readPart
  dsimp only
  rw [if_neg (take_ne_nil h0 hn)]
  unfold buffer at hb ⊢
  rw [hb]
  have hshown : (if x.fsm.own.check_status_ = .EProxyConnSvrSucc ∧ x.fsm.own.observer_ = true then
      [x.fsm.recv_buf_ ++ x.flight.take n] else []) = shown X (x.fsm.recv_buf_ ++ x.flight.take n) := by
    rw [hA.status, hA.observer]
    unfold shown
    by_cases hX : X = .verify
    · rw [if_pos hX, if_pos ⟨by rw [hX]; rfl, hA.watched hX⟩]
    · rw [if_neg hX, if_neg]
      rintro ⟨hs, -⟩
      cases X with
      | greet | auth | conn => cases hs
      | verify => exact hX rfl
  simp only [Option.map_some, hshown]

theorem step_wait (hA : At u X x) (h0 : 0 < n) (hn : n ≤ x.flight.length)
    (hr : ready X (buffer x n) = false) :
    ∃ y, step u x n = some y ∧ At u X y ∧ y.fsm.recv_buf_ = buffer x n ∧
      y.flight = x.flight.drop n ∧ y.replies = x.replies ∧ y.seen = x.seen ∧
      y.presented = x.presented := by
  have hne : buffer x n ≠ [] := List.append_ne_nil_of_right_ne_nil _ (take_ne_nil h0 hn)
  have hX : X ≠ .verify := by
    rintro rfl
    have hlen : buffer x n = [] := by simpa [ready] using hr
    exact hne hlen
  have hread := read_of hA h0 hn
    (onRecv_wait (b := { x.fsm.toBufs with recv_buf_ := buffer x n }) hA.status hr hne _)
  have hnote : note x.fsm
      { x.fsm with toBufs := { x.fsm.toBufs with recv_buf_ := buffer x n } } = [] := if_pos rfl
  rw [hnote, show shown X (buffer x n) = [] from if_neg hX, List.append_nil, List.append_nil] at hread
  have hA' : At u X { x with
      fsm := { x.fsm with toBufs := { x.fsm.toBufs with recv_buf_ := buffer x n } }
      flight := x.flight.drop n } :=
    ⟨hA.open_, hA.status, hA.observer, hA.request, hA.sent, hA.watched, hr⟩
  refine ⟨_, ?_, hA', rfl, rfl, rfl, rfl, rfl⟩
  unfold step
  rw [hread, Option.bind_some, if_neg (Bool.eq_false_iff.mp hA'.unchecked)]
  unfold write
  rw [if_neg]
  rintro (h | h)
  · exact Bool.noConfusion (hA.request.symm.trans h)
  · exact h hA.sent

/-! ## the request after a reply -/

theorem write_empty {b : Bufs Check} (hreq : x.fsm.request_send_ = true) (hsend : x.fsm.send_buf_ = [])
    (hb : (socks5 u.p).onRequestSend (u.o.answers []) { x.fsm.toBufs with request_send_ := false } =
      some b)
    (hnil : b.send_buf_ = []) :
    let g : TcpClientFSM Check := { x.fsm with toBufs := b }
    write u x = some { x with
      fsm := u.errno.elim g g.finish, seen := x.seen ++ note x.fsm (u.errno.elim g g.finish) } := by
  unfold write
  rw [if_pos (Or.inl hreq)]
  have hg : x.fsm.requestSend (socks5 u.p) (u.o.answers []) = some { x.fsm with toBufs := b } := by
    unfold TcpClientFSM.requestSend
    rw [if_pos ⟨hreq, hsend⟩, hb]
    rfl
  unfold TcpClientFSM.writePart
  simp only [hg, Option.bind_some, if_pos hnil]
  cases u.errno with
  | none => rfl
  | some e =>
    simp only [Option.elim_some, hnil, or_true, if_true]
    rfl

theorem write_sent {b : Bufs Check} (hreq : x.fsm.request_send_ = true) (hsend : x.fsm.send_buf_ = [])
    (hb : (socks5 u.p).onRequestSend (u.o.answers []) { x.fsm.toBufs with request_send_ := false } =
      some b)
    (hne : b.send_buf_ ≠ []) :
    write u x = some { x with
      fsm := { x.fsm with toBufs := { b with send_buf_ := [] } }
      seen := x.seen ++ note x.fsm { x.fsm with toBufs := b }
      flight := x.flight ++ x.replies.headD [], replies := x.replies.tail } := by
  unfold write
  rw [if_pos (Or.inl hreq)]
  have hg : x.fsm.requestSend (socks5 u.p) (u.o.answers []) = some { x.fsm with toBufs := b } := by
    unfold TcpClientFSM.requestSend
    rw [if_pos ⟨hreq, hsend⟩, hb]
    rfl
  unfold TcpClientFSM.writePart
  have hlen : 0 < b.send_buf_.length := List.length_pos_iff.mpr hne
  simp only [hg, Option.bind_some, if_neg hne, hlen, le_refl, and_self, if_true, List.drop_length,
    Option.map_some]
  rfl

/-- where an exchange has come to, with what was in flight and still to come before -/
def Come (u : Setup) (flight : Bytes) (replies : List Bytes) (z : Exchange) : Option Stage → Prop
  | none => z.checked = true
  | some Y => At u Y z ∧ z.fsm.recv_buf_ = [] ∧ (z.flight, z.replies) = onward u Y flight replies

theorem Exchange.checked_of (h : x.fsm.own.check_status_ = .ECheckOK ∨
    x.fsm.own.check_status_ = .ECheckFail ∨ x.fsm.status_ = .EEnd) : x.checked = true := by
  unfold Exchange.checked
  rcases h with h | h | h
  · rw [h]; rfl
  · rw [h]; rfl
  · rw [h]; exact Bool.or_true _

theorem ready_nil (X : Stage) : ready X [] = false := by
  cases X <;> rfl

/-- the exchange has passed a reply and asks for the next request -/
structure Passed (u : Setup) (x : Exchange) : Prop where
  open_ : x.fsm.status_ = .EReadWrite
  observer : x.fsm.own.observer_ = u.o.observer_
  request : x.fsm.request_send_ = true
  sent : x.fsm.send_buf_ = []
  received : x.fsm.recv_buf_ = []
  status : x.fsm.own.check_status_ = .EProxySocks5GreetSucc ∨
    x.fsm.own.check_status_ = .EProxySocks5AuthSucc ∨
    x.fsm.own.check_status_ = .EProxyConnSvrSucc ∧ u.o.observer_ = true

theorem Passed.unchecked (h : Passed u x) : x.checked = false := by
  unfold Exchange.checked
  rw [h.open_]
  rcases h.status with hs | hs | ⟨hs, -⟩
  · rw [hs]; rfl
  · rw [hs]; rfl
  · rw [hs]; rfl

theorem note_new {f f' : TcpClientFSM Check} {s : TCheckStatus} (hs : f'.own.check_status_ = s)
    (hne : s ≠ f.own.check_status_) : note f f' = [s] := by
  unfold note
  rw [hs, if_neg hne]

theorem note_same {f f' : TcpClientFSM Check} (h : f'.own.check_status_ = f.own.check_status_) :
    note f f' = [] := if_pos h

theorem write_fails {b : Bufs Check} (h : Passed u x)
    (hb : (socks5 u.p).onRequestSend (u.o.answers []) { x.fsm.toBufs with request_send_ := false } =
      some b) (hfail : b.own.check_status_ = .ECheckFail) :
    ∃ z, write u x = some z ∧ z.seen = x.seen ++ [.ECheckFail] ∧ z.presented = x.presented ∧
      z.checked = true := by
  have hne : TCheckStatus.ECheckFail ≠ x.fsm.own.check_status_ := by
    intro he
    rcases h.status with hs | hs | ⟨hs, -⟩
    · cases he.trans hs
    · cases he.trans hs
    · cases he.trans hs
  by_cases hnil : b.send_buf_ = []
  · refine ⟨_, write_empty h.request h.sent hb hnil, ?_, rfl, ?_⟩
    · refine congrArg _ (note_new ?_ hne)
      cases u.errno <;> exact hfail
    · refine Exchange.checked_of (Or.inr (Or.inl ?_))
      cases u.errno <;> exact hfail
  · refine ⟨_, write_sent h.request h.sent hb hnil, ?_, rfl, ?_⟩
    · exact congrArg _ (note_new hfail hne)
    · exact Exchange.checked_of (Or.inr (Or.inl hfail))

/-- a request that is sent leads to the next receive state -/
theorem write_enters {b : Bufs Check} {Y : Stage} (h : Passed u x)
    (hb : (socks5 u.p).onRequestSend (u.o.answers []) { x.fsm.toBufs with request_send_ := false } =
      some b) (hne : b.send_buf_ ≠ []) (hs : b.own.check_status_ = Y.status)
    (hobs : b.own.observer_ = u.o.observer_) (hreq : b.request_send_ = false)
    (hrecv : b.recv_buf_ = []) (hwatch : Y = .verify → u.o.observer_ = true) (hasks : asks u Y = true)
    {l : List TCheckStatus}
    (hl : (if Y.status = x.fsm.own.check_status_ then [] else [Y.status]) = l) :
    ∃ z, write u x = some z ∧ z.seen = x.seen ++ l ∧ z.presented = x.presented ∧
      Come u x.flight x.replies z (some Y) := by
  refine ⟨_, write_sent h.request h.sent hb hne, ?_, rfl, ?_, hrecv, ?_⟩
  · rw [← hl, ← hs]
    rfl
  · refine ⟨h.open_, hs, hobs, hreq, rfl, hwatch, ?_⟩
    show ready Y b.recv_buf_ = false
    rw [hrecv]
    exact ready_nil Y
  · unfold onward
    rw [if_pos hasks]

theorem requested_verify : requested u .EProxyConnSvrSucc =
    if u.o.onVerifySend = false then ([.ECheckFail], none)
    else if u.o.sendBuf = [] ∧ u.errno.isSome then ([], none)
    else ([], some .verify) := rfl

theorem write_passed (h : Passed u x) :
    ∃ z, write u x = some z ∧ z.seen = x.seen ++ (requested u x.fsm.own.check_status_).1 ∧
      z.presented = x.presented ∧
      Come u x.flight x.replies z (requested u x.fsm.own.check_status_).2 := by
  rcases h.status with hst | hst | ⟨hst, hwatch⟩
  · rw [hst]
    unfold requested
    by_cases hun : unfit u.p
    · have hb : (socks5 u.p).onRequestSend (u.o.answers [])
          { x.fsm.toBufs with request_send_ := false } =
            some ({ x.fsm.toBufs with request_send_ := false }.setStatus .ECheckFail) := by
        unfold socks5
        simp only [hst]
        exact if_pos hun
      simp only [if_pos hun]
      exact write_fails h hb rfl
    · have hb : (socks5 u.p).onRequestSend (u.o.answers [])
          { x.fsm.toBufs with request_send_ := false } =
            some ({ x.fsm.toBufs with request_send_ := false, send_buf_ := authRequest u.p }.setStatus
              .EProxySocks5AuthReq) := by
        unfold socks5
        simp only [hst]
        exact if_neg hun
      simp only [if_neg hun]
      refine write_enters (Y := .auth) h hb (List.cons_ne_nil _ _) rfl h.observer rfl h.received
        (nomatch ·) rfl ?_
      rw [hst]
      rfl
  · rw [hst]
    have hb : (socks5 u.p).onRequestSend (u.o.answers [])
        { x.fsm.toBufs with request_send_ := false } =
          some ({ x.fsm.toBufs with request_send_ := false, send_buf_ := connSvrRequest u.p }.setStatus
            .EProxySocks5ConnSvrReq) := by
      unfold socks5
      simp only [hst]
    refine write_enters (Y := .conn) h hb (List.cons_ne_nil _ _) rfl h.observer rfl h.received
      (nomatch ·) rfl ?_
    rw [hst]
    rfl
  · have hb : (socks5 u.p).onRequestSend (u.o.answers [])
        { x.fsm.toBufs with request_send_ := false } =
          some (if u.o.onVerifySend then
            { x.fsm.toBufs with request_send_ := false, send_buf_ := u.o.sendBuf }
          else
            { x.fsm.toBufs with request_send_ := false, send_buf_ := u.o.sendBuf }.setStatus
              .ECheckFail) := by
      unfold socks5
      simp only [hst, h.observer, hwatch]
      rfl
    rw [hst, requested_verify]
    by_cases hv : u.o.onVerifySend = false
    · rw [if_pos hv]
      refine write_fails h hb ?_
      rw [hv]
      rfl
    rw [if_neg hv]
    rw [if_pos (Bool.eq_true_of_not_eq_false hv)] at hb
    by_cases hnil : u.o.sendBuf = []
    · have hw := write_empty h.request h.sent hb hnil
      cases he : u.errno with
      | some e =>
        rw [he] at hw
        rw [if_pos ⟨hnil, rfl⟩]
        refine ⟨_, hw, ?_, rfl, Exchange.checked_of (Or.inr (Or.inr rfl))⟩
        exact congrArg _ (note_same rfl)
      | none =>
        rw [he] at hw
        rw [if_neg (fun h => nomatch h.2)]
        refine ⟨_, hw, congrArg _ (note_same rfl), rfl, ?_, h.received, ?_⟩
        · refine ⟨h.open_, hst, h.observer, rfl, hnil, fun _ => hwatch, ?_⟩
          show ready .verify x.fsm.recv_buf_ = false
          rw [h.received]
          rfl
        · unfold onward asks
          rw [hnil]
          rfl
    · rw [if_neg (fun hn => hnil hn.1)]
      refine write_enters (Y := .verify) h hb hnil hst h.observer rfl h.received (fun _ => hwatch) ?_ ?_
      · unfold asks
        simp [hnil]
      · rw [hst]
        rfl

/-! ## a piece that completes a reply -/

theorem step_ends (hA : At u X x) (h0 : 0 < n) (hn : n ≤ x.flight.length) {b : Bufs Check}
    (hb : (socks5 u.p).onRecv (u.o.answers (buffer x n))
      { x.fsm.toBufs with recv_buf_ := buffer x n } = some b)
    (hs : b.own.check_status_ = .ECheckOK ∨ b.own.check_status_ = .ECheckFail) :
    ∃ y, step u x n = some y ∧ y.seen = x.seen ++ [b.own.check_status_] ∧
      y.presented = x.presented ++ shown X (buffer x n) ∧ y.checked = true := by
  have hne : b.own.check_status_ ≠ x.fsm.own.check_status_ := by
    intro he
    rw [he, hA.status] at hs
    cases X <;> rcases hs with hs | hs <;> cases hs
  have hc : Exchange.checked { x with
      fsm := { x.fsm with toBufs := b }, seen := x.seen ++ note x.fsm { x.fsm with toBufs := b }
      flight := x.flight.drop n, presented := x.presented ++ shown X (buffer x n) } = true :=
    Exchange.checked_of (hs.imp_right Or.inl)
  refine ⟨_, ?_, congrArg _ (note_new rfl hne), rfl, hc⟩
  unfold step
  rw [read_of hA h0 hn hb, Option.bind_some, if_pos hc]

theorem course_refused {buf : Bytes} (h : refused X buf = true) :
    course u X buf = ([.ECheckFail], none) := if_pos h

theorem course_passed {buf : Bytes} (h : refused X buf = false) :
    course u X buf =
      (passed u X buf :: (requested u (passed u X buf)).1, (requested u (passed u X buf)).2) :=
  if_neg (Bool.eq_false_iff.mp h)

theorem passed_verify (u : Setup) (buf : Bytes) :
    passed u .verify buf = .ECheckOK ∨ passed u .verify buf = .ECheckFail := by
  unfold passed
  dsimp only
  split
  · exact Or.inl rfl
  · exact Or.inr rfl

theorem passed_cases (u : Setup) (buf : Bytes) (hX : X ≠ .verify) :
    passed u X buf = .ECheckOK ∨ passed u X buf = .EProxySocks5GreetSucc ∨
      passed u X buf = .EProxySocks5AuthSucc ∨
      passed u X buf = .EProxyConnSvrSucc ∧ u.o.observer_ = true := by
  unfold passed
  cases X with
  | greet =>
    dsimp only
    split
    · exact Or.inr (Or.inr (Or.inl rfl))
    · exact Or.inr (Or.inl rfl)
  | auth => exact Or.inr (Or.inr (Or.inl rfl))
  | conn =>
    dsimp only
    split
    · rename_i h
      exact Or.inr (Or.inr (Or.inr ⟨rfl, (Bool.and_eq_true_iff.mp h).1⟩))
    · exact Or.inl rfl
  | verify => exact absurd rfl hX

theorem step_passes (hA : At u X x) (h0 : 0 < n) (hn : n ≤ x.flight.length) (hX : X ≠ .verify)
    {s : TCheckStatus}
    (hb : (socks5 u.p).onRecv (u.o.answers (buffer x n)) { x.fsm.toBufs with recv_buf_ := buffer x n } =
      some ({ x.fsm.toBufs with request_send_ := true, recv_buf_ := [] }.setStatus s))
    (hs : s = .EProxySocks5GreetSucc ∨ s = .EProxySocks5AuthSucc ∨
      s = .EProxyConnSvrSucc ∧ u.o.observer_ = true) :
    ∃ y, step u x n = some y ∧ y.seen = x.seen ++ s :: (requested u s).1 ∧
      y.presented = x.presented ++ shown X (buffer x n) ∧
      Come u (x.flight.drop n) x.replies y (requested u s).2 := by
  have hnew : s ≠ x.fsm.own.check_status_ := by
    rw [hA.status]
    intro he
    rw [he] at hs
    cases X with
    | verify => exact hX rfl
    | greet | auth | conn => rcases hs with hs | hs | ⟨hs, -⟩ <;> cases hs
  have hread := read_of hA h0 hn hb
  have hp : Passed u { x with
      fsm := { x.fsm with
        toBufs := { x.fsm.toBufs with request_send_ := true, recv_buf_ := [] }.setStatus s }
      seen := x.seen ++ note x.fsm { x.fsm with
        toBufs := { x.fsm.toBufs with request_send_ := true, recv_buf_ := [] }.setStatus s }
      flight := x.flight.drop n, presented := x.presented ++ shown X (buffer x n) } :=
    ⟨hA.open_, hA.observer, rfl, hA.sent, rfl, hs⟩
  obtain ⟨y, hy, hseen, hpres, hcome⟩ := write_passed hp
  refine ⟨y, ?_, ?_, hpres, hcome⟩
  · unfold step
    rw [hread, Option.bind_some, if_neg (Bool.eq_false_iff.mp hp.unchecked)]
    exact hy
  · rw [hseen]
    show (x.seen ++ note _ _) ++ (requested u s).1 = _
    rw [note_new (s := s) rfl hnew, List.append_assoc]
    rfl

theorem step_fire (hA : At u X x) (h0 : 0 < n) (hn : n ≤ x.flight.length)
    (hr : ready X (buffer x n) = true) :
    ∃ y, step u x n = some y ∧ y.seen = x.seen ++ (course u X (buffer x n)).1 ∧
      y.presented = x.presented ++ shown X (buffer x n) ∧
      Come u (x.flight.drop n) x.replies y (course u X (buffer x n)).2 := by
  by_cases href : refused X (buffer x n) = true
  · obtain ⟨b, hb, hfail⟩ := onRecv_refused
      (b := { x.fsm.toBufs with recv_buf_ := buffer x n }) hA.status hr href
      (u.o.answers (buffer x n))
    rw [course_refused href]
    have h := step_ends hA h0 hn hb (Or.inr hfail)
    rwa [hfail] at h
  have href' := Bool.eq_false_of_not_eq_true href
  rw [course_passed href']
  by_cases hX : X = .verify
  · have hb := onRecv_verify (u := u) (b := { x.fsm.toBufs with recv_buf_ := buffer x n }) hA.status hX
      (hA.observer.trans (hA.watched hX))
    subst hX
    obtain ⟨y, hy, hseen, hpres, hc⟩ := step_ends hA h0 hn hb (passed_verify u _)
    refine ⟨y, hy, ?_, hpres, ?_⟩
    · rw [hseen]
      show _ ++ [passed u .verify (buffer x n)] = _
      rcases passed_verify u (buffer x n) with h | h <;> rw [h] <;> rfl
    · rcases passed_verify u (buffer x n) with h | h <;> rw [h] <;> exact hc
  · have hb := onRecv_passes (u := u) (b := { x.fsm.toBufs with recv_buf_ := buffer x n }) hA.status
      hX hA.observer hr href'
    rcases passed_cases u (buffer x n) hX with hok | hgo
    · rw [hok] at hb ⊢
      exact step_ends hA h0 hn hb (Or.inl rfl)
    · exact step_passes hA h0 hn hX hb hgo

end

end Socks5
