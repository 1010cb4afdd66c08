import LearnDiary.Socket.BlockRecv
import LearnDiary.Socket.SocketSelect
import Mathlib.Tactic.SplitIfs

/-!
# `block_socket_connect` (comm/socket/block_socket.cc)

One pass over the answers of the system, with a `SocketSelect` of its own; how long it waits is left
out.  Every error path closes the socket itself, so the descriptors of the process go through the
call with it.

* `connect_owns`  a socket that is not returned is closed, once, and not used behind it;
* `select_both`   what the `SocketSelect` says of the breaker and of the socket;
* `connect_iff`   when the socket is returned.
-/

namespace BlockSocket
open SocketSelect

/-- the open descriptors of the process, and whether one was used or closed that is not open -/
structure Descriptors where
  fds : List Nat
  misused : Bool := false
deriving DecidableEq

namespace Descriptors
variable (d : Descriptors) (fd : Nat)

def opened : Descriptors := { d with fds := fd :: d.fds }

def use : Descriptors := { d with misused := d.misused || !d.fds.contains fd }

/-- `socket_close` -/
def close : Descriptors := { fds := d.fds.erase fd, misused := d.misused || !d.fds.contains fd }

theorem opened_use : (d.opened fd).use fd = d.opened fd := by
  unfold use opened
  rw [List.contains_cons, beq_self_eq_true, Bool.true_or, Bool.not_true, Bool.or_false]

theorem opened_close : (d.opened fd).close fd = d := by
  unfold close opened
  rw [List.erase_cons_head, List.contains_cons, beq_self_eq_true, Bool.true_or, Bool.not_true,
    Bool.or_false]

end Descriptors

/-- what the system answers; a call that fails has its `socket_errno` -/
structure Connects where
  /-- `socket` -/
  sock : Except Int Nat
  /-- `socket_set_nobio` -/
  nobio : Option Int := none
  /-- `getNetInfo` says that `socket_fix_tcp_mss` is called -/
  kWifi : Bool := false
  /-- `connect`, where `IS_NOBLOCK_CONNECT_ERRNO` does not say that it goes on -/
  connect : Option Int := none
  /-- `poll` -/
  poll : Reply
  socket_error : Int := 0

/-- the socket it returns, `_errcode`, and the descriptors behind it -/
structure Connected where
  sock : Option Nat
  _errcode : Int
  descriptors : Descriptors
deriving DecidableEq

/-- behind `Select` -/
def selected (o : Connects) (sock : Nat) (sel : SocketSelect) (d : Descriptors) : Connected :=
  if sel.ret = 0 then
    let d := d.close sock
    ⟨none, eTimedOut, d⟩
  else if sel.ret < 0 then
    let d := d.close sock
    ⟨none, sel.socket_poll_.errno_, d⟩
  else if sel.isException then
    let d := d.close sock
    ⟨none, 0, d⟩
  else if sel.isBreak then
    let d := d.close sock
    ⟨none, 0, d⟩
  else if sel.exception_FD_ISSET sock then
    let d := d.use sock
    let d := d.close sock
    ⟨none, o.socket_error, d⟩
  else if !sel.write_FD_ISSET sock then
    let d := d.use sock
    let d := d.close sock
    ⟨none, o.socket_error, d⟩
  else
    let d := d.use sock
    if 0 ≠ o.socket_error then
      let d := d.close sock
      ⟨none, o.socket_error, d⟩
    else ⟨some sock, o.socket_error, d⟩

/-- the `SocketSelect` behind `Select`; without `_autoclear` it does not read the breaker's pipe -/
def selectFor (_breaker : SocketBreaker) (o : Connects) (sock : Nat) : Option SocketSelect :=
  (SocketSelect.new _breaker false).preSelect.bind fun sel =>
    let sel := (sel.write_FD_SET sock).exception_FD_SET sock
    sel.select (o.poll.outcome sel.socket_poll_.events_) 0

/-- `block_socket_connect` -/
def blockSocketConnect (_breaker : SocketBreaker) (o : Connects) (d : Descriptors) :
    Option Connected :=
  match o.sock with
  | .error socket_errno => some ⟨none, socket_errno, d⟩
  | .ok sock =>
    let d := d.opened sock
    let d := d.use sock
    match o.nobio with
    | some socket_errno =>
      let d := d.close sock
      some ⟨none, socket_errno, d⟩
    | none =>
      let d := if o.kWifi then d.use sock else d
      let d := d.use sock
      match o.connect with
      | some socket_errno =>
        let d := d.close sock
        some ⟨none, socket_errno, d⟩
      | none =>
        let d := d.use sock
        (selectFor _breaker o sock).map fun sel => selected o sock sel d

/-! ## the descriptors -/

/-- the call leaves the descriptors as they were, with the socket it returns in front -/
structure Connected.Owns (o : Connects) (d : Descriptors) (r : Connected) : Prop where
  descriptors : r.descriptors = { d with fds := r.sock.toList ++ d.fds }
  sock : ∀ fd, r.sock = some fd → o.sock = .ok fd

section
variable {_breaker : SocketBreaker} {o : Connects} {sock : Nat} {sel : SocketSelect} {R : Reply}

theorem closed_owns (o : Connects) (d : Descriptors) (sock : Nat) (_errcode : Int) :
    Connected.Owns o d ⟨none, _errcode, (d.opened sock).close sock⟩ :=
  ⟨d.opened_close sock, nofun⟩

/-- the breaker's entry comes first, whatever else is polled -/
theorem polled_entries (_breaker : SocketBreaker) (cs : List SetCall) :
    Entries _breaker.pipes_.1 cs
      ((SocketSelect.new _breaker false).sets cs).socket_poll_.events_ := by
  have hpre : (SocketSelect.new _breaker false).preSelect = some (SocketSelect.new _breaker false) :=
    rfl
  obtain ⟨b, hb, h⟩ := preSelect_entries hpre
  cases hb
  exact sets_entries h cs

theorem selectFor_some (_breaker : SocketBreaker) (o : Connects) (sock : Nat) :
    ∃ sel, selectFor _breaker o sock = some sel := by
  obtain ⟨e0, es, hes, -⟩ := (polled_entries _breaker [.write sock, .exception sock]).cons
  have hpoll : ∃ p, ((SocketSelect.new _breaker false).sets
      [.write sock, .exception sock]).socket_poll_.poll (o.poll.outcome (e0 :: es)) 0 = some p := by
    cases o.poll with
    | error e =>
      have hrs : (PollOutcome.error e).revents (e0 :: es).length = 0 :: List.replicate es.length 0 :=
        rfl
      obtain ⟨p, hp, -⟩ := SocketPoll.poll_eq (r := 0) hes (hes ▸ hrs) List.length_replicate
      exact ⟨p, hp⟩
    | ok K =>
      obtain ⟨p, hp, -⟩ := SocketPoll.poll_eq (o := .ready _) (r := 0) hes rfl (List.length_map _)
      exact ⟨p, hp⟩
  obtain ⟨p, hp⟩ := hpoll
  refine ⟨⟨p⟩, ?_⟩
  show (SocketPoll.poll _ (o.poll.outcome
    ((SocketSelect.new _breaker false).sets [.write sock, .exception sock]).socket_poll_.events_)
      0).map _ = _
  rw [hes]
  exact congrArg _ hp

theorem selected_owns (hsock : o.sock = .ok sock) (sel : SocketSelect) (d : Descriptors) :
    (selected o sock sel (d.opened sock)).Owns o d := by
  unfold selected
  dsimp only
  rw [d.opened_use sock]
  have hclosed := closed_owns o d sock
  split
  · exact hclosed _
  split
  · exact hclosed _
  split
  · exact hclosed _
  split
  · exact hclosed _
  split
  · exact hclosed _
  split
  · exact hclosed _
  split
  · exact hclosed _
  · exact ⟨rfl, fun fd hfd => by cases hfd; exact hsock⟩

/-- **Every socket that is opened is returned or closed**: behind the call the process has the
descriptors it had, and the one that is returned; none is closed twice or used behind its close. -/
theorem connect_owns (_breaker : SocketBreaker) (o : Connects) (d : Descriptors) :
    ∃ r, blockSocketConnect _breaker o d = some r ∧ r.Owns o d := by
  unfold blockSocketConnect
  cases hsock : o.sock with
  | error e => exact ⟨_, rfl, rfl, nofun⟩
  | ok sock =>
    simp only [Descriptors.opened_use, ite_self]
    cases o.nobio with
    | some e => exact ⟨_, rfl, closed_owns o d sock e⟩
    | none =>
      cases o.connect with
      | some e => exact ⟨_, rfl, closed_owns o d sock e⟩
      | none =>
        obtain ⟨sel, hsel⟩ := selectFor_some _breaker o sock
        dsimp only
        rw [hsel]
        exact ⟨_, rfl, selected_owns hsock sel d⟩

/-! ## when the socket is returned -/

/-- `poll` finds the socket writable and not broken, and the breaker neither used nor broken; the
breaker's number is another one -/
structure Ready (_breaker : SocketBreaker) (sock : Nat) (K : Int → BitVec 16 → BitVec 16) : Prop where
  apart : (sock : Int) ≠ _breaker.pipes_.1
  writable : writable (K sock POLLOUT) = true
  whole : broken (K sock POLLOUT) = false
  unused : K _breaker.pipes_.1 POLLIN &&& POLLIN = 0
  breaker : broken (K _breaker.pipes_.1 POLLIN) = false

theorem polled_two (hne : (sock : Int) ≠ _breaker.pipes_.1) :
    ((SocketSelect.new _breaker false).sets [.write sock, .exception sock]).socket_poll_.events_ =
      [⟨_breaker.pipes_.1, POLLIN, 0⟩, ⟨sock, POLLOUT, 0⟩] := by
  have h1 : ((SocketSelect.new _breaker false).sets [.write sock]).socket_poll_.events_ =
      [⟨_breaker.pipes_.1, POLLIN, 0⟩, ⟨sock, POLLOUT, 0⟩] := by
    refine (set_put (s := SocketSelect.new _breaker false) (List.nodup_singleton _)
      (.write sock)).trans (if_neg fun h => hne ?_)
    exact List.mem_singleton.mp h
  have h2 := set_put (s := (SocketSelect.new _breaker false).sets [.write sock])
    (polled_entries _breaker [.write sock]).nodup (.exception sock)
  refine h2.trans ?_
  rw [h1]
  refine (if_pos (List.mem_cons_of_mem _ (List.mem_singleton_self _))).trans ?_
  show [if _breaker.pipes_.1 = (sock : Int) then _ else _, if (sock : Int) = sock then _ else _] = _
  rw [if_neg (Ne.symm hne), if_pos rfl]
  have hor : POLLOUT ||| 0 = POLLOUT := by decide
  exact congrArg (fun m => [⟨_breaker.pipes_.1, POLLIN, 0⟩, (⟨sock, m, 0⟩ : PollFd)]) hor

theorem mask_both (sock : Nat) : mask [.write sock, .exception sock] sock = POLLOUT := by
  unfold mask
  rw [List.filter_eq_self.mpr]
  · show (0 ||| POLLOUT) ||| 0 = POLLOUT
    decide
  · intro c hc
    rcases List.mem_cons.mp hc with rfl | hc
    · exact beq_self_eq_true _
    · rw [List.mem_singleton.mp hc]
      exact beq_self_eq_true _

theorem select_lookups (h : selectFor _breaker o sock = some sel) :
    sel.write_FD_ISSET sock = (decide ((sock : Int) ≠ _breaker.pipes_.1) &&
      o.poll.answers [.write sock, .exception sock] writable sock) ∧
    sel.exception_FD_ISSET sock = (decide ((sock : Int) ≠ _breaker.pipes_.1) &&
      o.poll.answers [.write sock, .exception sock] broken sock) :=
  have hb : (SocketSelect.new _breaker false).socket_poll_.fds.head? = some _breaker.pipes_.1 := rfl
  have hpre : (SocketSelect.new _breaker false).preSelect =
      some (SocketSelect.new _breaker false) := rfl
  have hs : ((SocketSelect.new _breaker false).sets [.write sock, .exception sock]).select
      (o.poll.outcome ((SocketSelect.new _breaker false).sets
        [.write sock, .exception sock]).socket_poll_.events_) 0 = some sel := h
  ⟨preSelect_isSet hb hpre hs writable (by decide) sock,
    preSelect_isSet hb hpre hs broken (by decide) sock⟩

theorem answers_both (sock : Nat) (test : BitVec 16 → Bool) (K : Int → BitVec 16 → BitVec 16) :
    Reply.answers (.ok K) [.write sock, .exception sock] test sock = test (K sock POLLOUT) := by
  unfold Reply.answers
  rw [mask_both, decide_eq_true (show (sock : Int) ∈ List.map SetCall.socket _ from
    List.mem_cons_self)]
  exact Bool.true_and _

/-- **What the select says** of the breaker, and how many of the two it finds ready. -/
theorem select_both {K : Int → BitVec 16 → BitVec 16} (hne : (sock : Int) ≠ _breaker.pipes_.1)
    (hK : o.poll = .ok K) (h : selectFor _breaker o sock = some sel) :
    sel.ret = ([K _breaker.pipes_.1 POLLIN, K sock POLLOUT].countP (· != 0) : Nat) ∧
      sel.isException = broken (K _breaker.pipes_.1 POLLIN) ∧
      sel.isBreak = (K _breaker.pipes_.1 POLLIN &&& POLLIN != 0) := by
  have hev := polled_two hne
  have hcall : (SocketPoll.poll ((SocketSelect.new _breaker false).sets
      [.write sock, .exception sock]).socket_poll_ (o.poll.outcome
        ((SocketSelect.new _breaker false).sets
          [.write sock, .exception sock]).socket_poll_.events_) 0).map SocketSelect.mk = some sel := h
  rw [hev, hK] at hcall
  obtain ⟨p, hp, hpe, hret, -⟩ := SocketPoll.poll_eq
    (o := .ready [K _breaker.pipes_.1 POLLIN, K sock POLLOUT]) (r := 0) hev rfl rfl
  obtain ⟨p', hp', rfl⟩ := Option.map_eq_some_iff.mp hcall
  obtain rfl := Option.some.inj (hp.symm.trans hp')
  refine ⟨hret, ?_, SocketPoll.breakerIsBreak_eq hpe⟩
  unfold isException SocketPoll.breakerIsError
  rw [hpe]
  exact Bool.or_comm _ _

theorem selected_iff {d : Descriptors} {fd : Nat} : (selected o sock sel d).sock = some fd ↔
    fd = sock ∧ 0 < sel.ret ∧ sel.isException = false ∧ sel.isBreak = false ∧
      sel.exception_FD_ISSET sock = false ∧ sel.write_FD_ISSET sock = true ∧ o.socket_error = 0 := by
  constructor
  · intro h
    unfold selected at h
    dsimp only at h
    split_ifs at h with h0 hneg hexc hbreak hset hwrite herr
    all_goals cases h
    exact ⟨rfl, by omega, Bool.eq_false_iff.mpr hexc, Bool.eq_false_iff.mpr hbreak,
      Bool.eq_false_iff.mpr hset, by simpa using hwrite, (not_not.mp herr).symm⟩
  · rintro ⟨rfl, hret, hexc, hbreak, hset, hwrite, herr⟩
    unfold selected
    rw [if_neg (Int.ne_of_gt hret), if_neg (Int.not_lt.mpr (Int.le_of_lt hret)), hexc, hbreak, hset,
      hwrite, herr]
    rfl

/-- the lookups are right where `poll` finds the socket ready -/
theorem ready_iff (h : selectFor _breaker o sock = some sel) :
    (0 < sel.ret ∧ sel.isException = false ∧ sel.isBreak = false ∧
      sel.exception_FD_ISSET sock = false ∧ sel.write_FD_ISSET sock = true) ↔
      ∃ K, o.poll = .ok K ∧ Ready _breaker sock K := by
  obtain ⟨hwrite, hexc⟩ := select_lookups h
  by_cases hne : (sock : Int) ≠ _breaker.pipes_.1
  · rw [decide_eq_true hne, Bool.true_and] at hwrite hexc
    cases hK : o.poll with
    | error e =>
      rw [hK] at hwrite
      refine iff_of_false (fun hc => ?_) (fun hc => ?_)
      · rw [hwrite] at hc
        exact absurd hc.2.2.2.2 Bool.false_ne_true
      · obtain ⟨K, hKe, -⟩ := hc
        cases hKe
    | ok K =>
      obtain ⟨hret, hexception, hbreak⟩ := select_both hne hK h
      rw [hK, answers_both] at hwrite hexc
      rw [hwrite, hexc, hexception, hbreak, hret]
      constructor
      · rintro ⟨-, hb1, hb2, hw, hs⟩
        exact ⟨K, rfl, hne, hs, hw, by simpa using hb2, hb1⟩
      · rintro ⟨K', hKe, hr⟩
        cases hKe
        have hpos : 0 < [K _breaker.pipes_.1 POLLIN, K sock POLLOUT].countP (· != 0) := by
          refine List.countP_pos_iff.mpr ⟨K sock POLLOUT,
            List.mem_cons_of_mem _ (List.mem_singleton_self _), bne_iff_ne.mpr fun hz => ?_⟩
          have hw := hr.writable
          rw [hz] at hw
          exact absurd hw (by decide)
        exact ⟨Int.ofNat_lt.mpr hpos, hr.breaker, by simpa using hr.unused, hr.whole, hr.writable⟩
  · rw [decide_eq_false hne, Bool.false_and] at hwrite
    refine iff_of_false (fun hc => ?_) (fun hc => ?_)
    · rw [hwrite] at hc
      exact absurd hc.2.2.2.2 Bool.false_ne_true
    · obtain ⟨K, -, hr⟩ := hc
      exact hne hr.apart

/-- **When the socket is returned**: where every call succeeds and `poll` finds the socket ready; a
breaker that has a number of the socket's left over keeps the call from it. -/
theorem connect_iff (_breaker : SocketBreaker) (o : Connects) (d : Descriptors) (sock : Nat) :
    (blockSocketConnect _breaker o d).bind Connected.sock = some sock ↔
      o.sock = .ok sock ∧ o.nobio = none ∧ o.connect = none ∧
        (∃ K, o.poll = .ok K ∧ Ready _breaker sock K) ∧ o.socket_error = 0 := by
  unfold blockSocketConnect
  cases hsock : o.sock with
  | error e => exact iff_of_false nofun (fun h => by cases h.1)
  | ok fd =>
    cases o.nobio with
    | some e => exact iff_of_false nofun (fun h => by cases h.2.1)
    | none =>
      cases o.connect with
      | some e => exact iff_of_false nofun (fun h => by cases h.2.2.1)
      | none =>
        obtain ⟨sel, hsel⟩ := selectFor_some _breaker o fd
        dsimp only
        rw [hsel]
        refine selected_iff.trans ?_
        constructor
        · rintro ⟨rfl, hret, hexc, hbreak, hset, hwrite, herr⟩
          exact ⟨rfl, rfl, rfl, (ready_iff hsel).mp ⟨hret, hexc, hbreak, hset, hwrite⟩, herr⟩
        · rintro ⟨he, -, -, hready, herr⟩
          cases he
          obtain ⟨hret, hexc, hbreak, hset, hwrite⟩ := (ready_iff hsel).mpr hready
          exact ⟨rfl, hret, hexc, hbreak, hset, hwrite, herr⟩

/-- the socket got the number of a pipe that is closed -/
example : (blockSocketConnect { pipes_ := (5, 6) } { sock := .ok 5, poll := .ok fun _ ev => ev &&& POLLOUT }
    ⟨[], false⟩).map (fun r => (r.sock, r.descriptors)) = some (none, ⟨[], false⟩) := by decide

end

end BlockSocket
