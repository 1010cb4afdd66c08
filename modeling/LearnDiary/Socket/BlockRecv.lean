import LearnDiary.Base.RawBuffer
import LearnDiary.Lib.Runs

/-!
# `block_socket_recv` (comm/socket/block_socket.cc)

`recv` puts its bytes into the capacity behind `Length()`; they belong to the buffer when a return sets
the length behind them, which the returns of -1 do not.  A step is one result of `recv` or of `Select`;
how long `Select` may take is left out.

* `AutoBuffer.fill_take`  the bytes behind `Length()`;
* `held_step`             where the received bytes stand while the call runs, and behind it;
* `recv_iff`              when nothing is lost.
-/

/-! ## bytes behind `Length()` -/

namespace AutoBuffer

/-- `d` at `Ptr(Length() + off)` -/
def fill (b : AutoBuffer) (off : Nat) (d : Bytes) (h : b.length_ + off + d.length ≤ b.capacity) :
    AutoBuffer :=
  { b with
    parray_ := overwrite b.parray_ (b.length_ + off) d
    length_le := by
      rw [length_overwrite _ _ _ h]
      exact b.length_le }

section
variable {b : AutoBuffer} {off : Nat} {d : Bytes} (h : b.length_ + off + d.length ≤ b.capacity)

theorem fill_capacity : (b.fill off d h).capacity = b.capacity := length_overwrite _ _ _ h

theorem fill_take : (b.fill off d h).parray_.take (b.length_ + off + d.length) =
    b.parray_.take (b.length_ + off) ++ d := by
  have hlen : (b.parray_.take (b.length_ + off) ++ d).length = b.length_ + off + d.length := by
    rw [List.length_append, List.length_take]
    unfold capacity at h
    omega
  show (overwrite b.parray_ (b.length_ + off) d).take _ = _
  unfold overwrite
  rw [← hlen, List.take_left]

end
end AutoBuffer

namespace BlockSocket

/-- what `recv` returns: 0, bytes, or -1; `again` is `IS_NOBLOCK_READ_ERRNO` -/
inductive Received where
  | closed
  | data (d : Bytes)
  | again
  | error (socket_errno : Int)

/-- what `Select` returns and the object says behind it -/
structure Selected where
  ret : Int
  errno : Int := 0
  isException : Bool := false
  isBreak : Bool := false
  exception_FD_ISSET : Bool := false
  read_FD_ISSET : Bool := true
  socket_error : Int := 0

inductive Act where
  | recv (nrecv : Received)
  | select (sel : Selected)

def eTimedOut : Int := 110

/-- the call in its loop, with the capacity that was added in front of it -/
structure Call (_max_size : Nat) where
  _buffer : AutoBuffer
  recv_len : Nat
  room : _buffer.length_ + _max_size ≤ _buffer.capacity
  recv_len_le : recv_len ≤ _max_size

inductive State (_max_size : Nat) where
  | recv (c : Call _max_size)
  | select (c : Call _max_size)
  | ret (_buffer : AutoBuffer) (value _errcode : Int)

section
variable {_max_size : Nat}

def start (_buffer : AutoBuffer) (_max_size : Nat) : Call _max_size :=
  if h : _buffer.capacity - _buffer.length_ < _max_size then
    { _buffer := _buffer.fit (_buffer.capacity + (_max_size - (_buffer.capacity - _buffer.length_)))
      recv_len := 0
      room := by
        have h1 := _buffer.le_fitSize (_buffer.capacity + (_max_size - (_buffer.capacity - _buffer.length_)))
        have h2 : _buffer.length_ ≤ _buffer.capacity := _buffer.length_le
        show _buffer.length_ + _max_size ≤ (_buffer.fitSize _).length
        omega
      recv_len_le := Nat.zero_le _ }
  else
    { _buffer := _buffer
      recv_len := 0
      room := by
        have h2 : _buffer.length_ ≤ _buffer.capacity := _buffer.length_le
        omega
      recv_len_le := Nat.zero_le _ }

namespace Call

/-- `_buffer.Length(_buffer.Pos(), _buffer.Length()+recv_len); return (int)recv_len;` -/
def commit (c : Call _max_size) (_errcode : Int) : State _max_size :=
  .ret (c._buffer.setLength c._buffer.pos_ (c._buffer.length_ + c.recv_len)
    (Nat.le_trans c._buffer.pos_le (Nat.le_add_right _ _))
    (Nat.le_trans (Nat.add_le_add_left c.recv_len_le _) c.room)) (toInt32 c.recv_len) _errcode

/-- `return -1;` -/
def fail (c : Call _max_size) (_errcode : Int) : State _max_size := .ret c._buffer (-1) _errcode

/-- `recv` has put `d` behind what has come before it -/
def arrive (c : Call _max_size) (d : Bytes) (h : c.recv_len + d.length ≤ _max_size) : Call _max_size :=
  have hroom : c._buffer.length_ + c.recv_len + d.length ≤ c._buffer.capacity := by
    have := c.room
    omega
  { _buffer := c._buffer.fill c.recv_len d hroom
    recv_len := c.recv_len + d.length
    room := by
      rw [AutoBuffer.fill_capacity]
      exact c.room
    recv_len_le := h }

/-- behind a `recv` without an error -/
def received (c : Call _max_size) (_wait_full_size : Bool) : State _max_size :=
  if _max_size ≤ c.recv_len then c.commit 0
  else if 0 < c.recv_len ∧ _wait_full_size = false then c.commit 0
  else .select c

/-- behind `Select` -/
def selected (c : Call _max_size) (sel : Selected) : State _max_size :=
  if sel.ret < 0 then c.fail sel.errno
  else if sel.ret = 0 then c.commit eTimedOut
  else if sel.isException || sel.isBreak then c.commit sel.errno
  else if sel.exception_FD_ISSET then c.fail sel.socket_error
  else if !sel.read_FD_ISSET then c.fail sel.socket_error
  else .recv c

end Call

/-- `recv` gives no more bytes than it was asked for -/
def step (_wait_full_size : Bool) : State _max_size → Act → Option (State _max_size)
  | .recv c, .recv .closed => some (c.commit 0)
  | .recv c, .recv (.error socket_errno) => some (c.fail socket_errno)
  | .recv c, .recv .again => some (c.received _wait_full_size)
  | .recv c, .recv (.data d) =>
    if h : d ≠ [] ∧ c.recv_len + d.length ≤ _max_size then
      some ((c.arrive d h.2).received _wait_full_size)
    else none
  | .select c, .select sel => some (c.selected sel)
  | _, _ => none

end

/-! ## what is promised -/

def Act.taken : Act → Bytes
  | .recv (.data d) => d
  | _ => []

def Selected.fails (sel : Selected) : Bool :=
  decide (sel.ret < 0) || (decide (sel.ret ≠ 0) && (!(sel.isException || sel.isBreak) &&
    (sel.exception_FD_ISSET || !sel.read_FD_ISSET)))

def Act.fails : Act → Bool
  | .recv (.error _) => true
  | .select sel => sel.fails
  | _ => false

def taken (acts : List Act) : Bytes := acts.flatMap Act.taken

def failed (acts : List Act) : Bool := acts.getLast?.any Act.fails

/-- the bytes that were taken from the socket stand behind those of the buffer and are counted -/
structure Kept (b : AutoBuffer) (acts : List Act) (_buffer : AutoBuffer) (value : Int) : Prop where
  data : _buffer.data = b.data ++ taken acts
  length : _buffer.length_ = b.length_ + (taken acts).length
  value : 0 ≤ value → value = (taken acts).length

theorem taken_concat (acts : List Act) (a : Act) : taken (acts ++ [a]) = taken acts ++ a.taken := by
  unfold taken
  rw [List.flatMap_append, List.flatMap_singleton]

theorem failed_concat (acts : List Act) (a : Act) : failed (acts ++ [a]) = a.fails := by
  unfold failed
  rw [List.getLast?_concat]
  rfl

/-! ## runs -/

section
variable {_max_size : Nat} {b : AutoBuffer} {acts : List Act} {w : Bool}

/-- the received bytes stand behind the old ones -/
structure Call.Holds (c : Call _max_size) (b : AutoBuffer) (acts : List Act) : Prop where
  length : c._buffer.length_ = b.length_
  count : c.recv_len = (taken acts).length
  bytes : c._buffer.parray_.take (b.length_ + c.recv_len) = b.data ++ taken acts

/-- and behind the call they are in the buffer or not -/
def Held (b : AutoBuffer) (acts : List Act) : State _max_size → Prop
  | .recv c | .select c => c.Holds b acts
  | .ret t value _ =>
    (failed acts = true ∧ t.data = b.data ∧ value = -1) ∨
      (failed acts = false ∧ t.data = b.data ++ taken acts ∧ value = toInt32 (taken acts).length)

theorem start_holds (b : AutoBuffer) (_max_size : Nat) : (start b _max_size).Holds b [] := by
  have hnil : b.data ++ taken [] = b.data := List.append_nil _
  unfold start
  split
  · exact ⟨rfl, rfl, (b.take_fitSize _ _ b.length_le).trans hnil.symm⟩
  · exact ⟨rfl, rfl, hnil.symm⟩

section
variable {c : Call _max_size} (h : c.Holds b acts)

include h

theorem Call.Holds.buffer : c._buffer.data = b.data := by
  have htake := congrArg (List.take b.length_) h.bytes
  rw [List.take_take, Nat.min_eq_left (Nat.le_add_right _ _), ← b.data_length, List.take_left,
    b.data_length] at htake
  unfold AutoBuffer.data
  rw [h.length]
  exact htake

theorem commit_held (hf : failed acts = false) (_errcode : Int) : Held b acts (c.commit _errcode) := by
  refine Or.inr ⟨hf, ?_, congrArg (fun n : Nat => toInt32 n) h.count⟩
  show c._buffer.parray_.take (c._buffer.length_ + c.recv_len) = _
  rw [h.length, h.bytes]

theorem fail_held (hf : failed acts = true) (_errcode : Int) : Held b acts (c.fail _errcode) :=
  Or.inl ⟨hf, h.buffer, rfl⟩

theorem received_held (hf : failed acts = false) : Held b acts (c.received w) := by
  unfold Call.received
  split
  · exact commit_held h hf 0
  · split
    · exact commit_held h hf 0
    · exact h

theorem Call.Holds.more {a : Act} (ha : a.taken = []) : c.Holds b (acts ++ [a]) := by
  have htaken : taken (acts ++ [a]) = taken acts := by rw [taken_concat, ha, List.append_nil]
  exact ⟨h.length, by rw [htaken]; exact h.count, by rw [htaken]; exact h.bytes⟩

theorem arrive_holds {d : Bytes} (hd : c.recv_len + d.length ≤ _max_size) :
    (c.arrive d hd).Holds b (acts ++ [.recv (.data d)]) := by
  have htaken : taken (acts ++ [.recv (.data d)]) = taken acts ++ d := taken_concat _ _
  refine ⟨h.length, ?_, ?_⟩
  · show c.recv_len + d.length = _
    rw [htaken, List.length_append, h.count]
  · have hroom : c._buffer.length_ + c.recv_len + d.length ≤ c._buffer.capacity := by
      have := c.room
      omega
    have hfill := AutoBuffer.fill_take hroom
    rw [h.length, h.bytes, List.append_assoc, ← htaken, Nat.add_assoc] at hfill
    exact hfill

theorem selected_held (sel : Selected) : Held b (acts ++ [.select sel]) (c.selected sel) := by
  have hm := h.more (a := .select sel) rfl
  have hf : failed (acts ++ [.select sel]) = sel.fails := failed_concat acts _
  unfold Selected.fails at hf
  unfold Call.selected
  split
  · rename_i hneg
    exact fail_held hm (by rw [hf, decide_eq_true hneg]; rfl) _
  · rename_i hneg
    rw [decide_eq_false hneg, Bool.false_or] at hf
    split
    · rename_i hzero
      exact commit_held hm (by rw [hf, decide_eq_false (not_not.mpr hzero)]; rfl) _
    · rename_i hzero
      rw [decide_eq_true hzero, Bool.true_and] at hf
      split
      · rename_i hbreak
        exact commit_held hm (by rw [hf, hbreak]; rfl) _
      · rename_i hbreak
        rw [Bool.eq_false_iff.mpr hbreak, Bool.not_false, Bool.true_and] at hf
        split
        · rename_i hexc
          exact fail_held hm (by rw [hf, hexc]; rfl) _
        · split
          · rename_i hread
            exact fail_held hm (by rw [hf, hread, Bool.or_true]) _
          · exact hm

end

/-- **One step** of the call. -/
theorem held_step {s t : State _max_size} {a : Act} (h : Held b acts s) (ha : step w s a = some t) :
    Held b (acts ++ [a]) t := by
  cases s with
  | ret _buffer value _errcode => cases ha
  | select c =>
    cases a with
    | recv nrecv => cases ha
    | select sel =>
      cases ha
      exact selected_held (c := c) h sel
  | recv c =>
    replace h : c.Holds b acts := h
    cases a with
    | select sel => cases ha
    | recv nrecv =>
      have hf := failed_concat acts (.recv nrecv)
      cases nrecv with
      | closed =>
        cases ha
        exact commit_held (h.more rfl) hf 0
      | again =>
        cases ha
        exact received_held (h.more rfl) hf
      | error socket_errno =>
        cases ha
        exact fail_held (h.more rfl) hf socket_errno
      | data d =>
        simp only [step] at ha
        split at ha
        · rename_i hd
          cases ha
          exact received_held (arrive_holds h hd.2) hf
        · cases ha

/-- **Every run** of the call. -/
theorem held_run {s : State _max_size} (h : Runs.exec (step w) (.recv (start b _max_size)) acts = some s) :
    Held b acts s :=
  have hstart : Held b [] (.recv (start b _max_size)) := start_holds b _max_size
  Runs.exec_keep (P := fun l s => Held b l s) (fun _ _ _ _ => held_step) hstart h

end

/-- **Nothing is lost** exactly when a call that fails has received nothing, and what another has received
counts less than `2^31`, or is negative as an `int`. -/
theorem recv_iff {b : AutoBuffer} {_max_size : Nat} {_wait_full_size : Bool} {acts : List Act}
    {_buffer : AutoBuffer} {value _errcode : Int}
    (h : Runs.exec (step _wait_full_size) (.recv (start b _max_size)) acts =
      some (.ret _buffer value _errcode)) :
    Kept b acts _buffer value ↔
      (failed acts = true → taken acts = []) ∧
      (failed acts = false → (taken acts).length < 2 ^ 31 ∨ toInt32 (taken acts).length < 0) := by
  have hlen : _buffer.data = b.data ++ taken acts → _buffer.length_ = b.length_ + (taken acts).length := by
    intro hdata
    rw [← _buffer.data_length, hdata, List.length_append, b.data_length]
  rcases held_run h with ⟨hf, hdata, rfl⟩ | ⟨hf, hdata, rfl⟩
  · refine ⟨fun hk => ⟨fun _ => ?_, fun hf' => ?_⟩, fun hc => ?_⟩
    · exact List.append_cancel_left (hk.data.symm.trans (hdata.trans (List.append_nil _).symm))
    · rw [hf] at hf'
      cases hf'
    · have hall : _buffer.data = b.data ++ taken acts := by rw [hc.1 hf, List.append_nil, hdata]
      exact ⟨hall, hlen hall, fun hneg => absurd hneg (by decide)⟩
  · refine ⟨fun hk => ⟨fun hf' => ?_, fun _ => ?_⟩, fun hc => ⟨hdata, hlen hdata, fun hpos => ?_⟩⟩
    · rw [hf] at hf'
      cases hf'
    · rcases Int.lt_or_le (toInt32 (taken acts).length) 0 with hneg | hpos
      · exact Or.inr hneg
      · have hval := hk.value hpos
        have hlt := toInt32_lt (taken acts).length
        exact Or.inl (by omega)
    · rcases hc.2 hf with hlt | hneg
      · exact toInt32_of_lt hlt
      · exact absurd hneg (not_lt.mpr hpos)

def oneByte (last : Received) : List Act := [.recv (.data [1]), .select { ret := 1 }, .recv last]

theorem recv_iff_two : ∃ _buffer value _errcode,
    Runs.exec (step true) (.recv (start .new 2)) (oneByte (.data [2])) =
      some (.ret _buffer value _errcode) ∧ Kept .new (oneByte (.data [2])) _buffer value := by
  have hrun : Runs.exec (step true) (.recv (start .new 2)) (oneByte (.data [2])) =
      some (.ret _ _ _) := rfl
  refine ⟨_, _, _, hrun, (recv_iff hrun).mpr ⟨fun h => ?_, fun _ => ?_⟩⟩
  · cases h
  · exact Or.inl (by decide)

/-- **A byte that was received** is lost when the next `recv` fails. -/
theorem recv_loses : ∃ _buffer value _errcode,
    Runs.exec (step true) (.recv (start .new 2)) (oneByte (.error 104)) =
      some (.ret _buffer value _errcode) ∧ ¬ Kept .new (oneByte (.error 104)) _buffer value :=
  ⟨_, _, _, rfl, fun h => absurd h.data (by decide)⟩

end BlockSocket
