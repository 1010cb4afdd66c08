import LearnDiary.Base.RawBuffer
import LearnDiary.Lib.Runs

/-!
# `GCDAsyncSocketPreBuffer` (Socket/GCDAsyncSocketPreBuffer.m)

Pointers are addresses, `block` is what stands from `preBuffer` on.  `malloc` and `realloc` succeed,
at any address and with anything in the new bytes.  A `Stream` also keeps what was written and read
since the last `reset`; an access outside the block has no outcome.

* `Sound.ensure`      growing keeps the bytes;
* `sound_step`        every operation does, as long as the new size is a `size_t`;
* `not_sound_step`    where it is not, the pointers leave the block;
* `byte_stream`       runs.
-/

structure GCDAsyncSocketPreBuffer where
  preBuffer : Nat
  block : Bytes
  preBufferSize : Nat
  readPointer : Nat
  writePointer : Nat

namespace GCDAsyncSocketPreBuffer
open Reads RawBuffer

def initWithCapacity (address : Nat) (fresh : Nat → UInt8) (numBytes : Nat) :
    GCDAsyncSocketPreBuffer :=
  ⟨address, cells fresh 0 numBytes, numBytes, address, address⟩

def availableBytes (b : GCDAsyncSocketPreBuffer) : Nat := subSize b.writePointer b.readPointer

def availableSpace (b : GCDAsyncSocketPreBuffer) : Nat :=
  subSize b.preBufferSize (subSize b.writePointer b.preBuffer)

/-- `address` is what `realloc` returns -/
def ensureCapacityForWrite (b : GCDAsyncSocketPreBuffer) (address : Nat) (fresh : Nat → UInt8)
    (numBytes : Nat) : GCDAsyncSocketPreBuffer :=
  if numBytes > b.availableSpace then
    let additionalBytes := subSize numBytes b.availableSpace
    let newPreBufferSize := addSize b.preBufferSize additionalBytes
    let readPointerOffset := subSize b.readPointer b.preBuffer
    let writePointerOffset := subSize b.writePointer b.preBuffer
    { preBuffer := address
      block := realloc fresh b.block newPreBufferSize
      preBufferSize := newPreBufferSize
      readPointer := address + readPointerOffset
      writePointer := address + writePointerOffset }
  else b

/-- the first `n` bytes of `readBuffer` -/
def readBytes (b : GCDAsyncSocketPreBuffer) (n : Nat) : Option Bytes :=
  load b.block (b.readPointer - b.preBuffer) n

/-- `d` copied to `writeBuffer` -/
def fill (b : GCDAsyncSocketPreBuffer) (d : Bytes) : Option GCDAsyncSocketPreBuffer :=
  (memcpyTo b.block (b.writePointer - b.preBuffer) d).map fun block => { b with block := block }

def reset (b : GCDAsyncSocketPreBuffer) : GCDAsyncSocketPreBuffer :=
  { b with readPointer := b.preBuffer, writePointer := b.preBuffer }

def didRead (b : GCDAsyncSocketPreBuffer) (bytesRead : Nat) : GCDAsyncSocketPreBuffer :=
  if b.readPointer + bytesRead = b.writePointer then
    { b with readPointer := b.preBuffer, writePointer := b.preBuffer }
  else { b with readPointer := b.readPointer + bytesRead }

def didWrite (b : GCDAsyncSocketPreBuffer) (bytesWritten : Nat) : GCDAsyncSocketPreBuffer :=
  { b with writePointer := b.writePointer + bytesWritten }

/-! ## streams -/

/-- the buffer, and the bytes written and read since the last `reset` -/
structure Stream where
  buffer : GCDAsyncSocketPreBuffer
  written : Bytes := []
  got : Bytes := []

inductive Action where
  | ensureCapacityForWrite (address : Nat) (fresh : Nat → UInt8) (numBytes : Nat)
  | write (d : Bytes)
  | read (n : Nat)
  | reset

/-- `numBytes` is a `size_t`, at most `availableSpace` is written and at most `availableBytes`
read -/
def step (s : Stream) : Action → Option Stream
  | .ensureCapacityForWrite address fresh numBytes =>
    if numBytes < 2 ^ 64 then
      some { s with buffer := s.buffer.ensureCapacityForWrite address fresh numBytes }
    else none
  | .write d =>
    if d.length ≤ s.buffer.availableSpace then
      (s.buffer.fill d).map fun b => { s with
        buffer := b.didWrite d.length
        written := s.written ++ d }
    else none
  | .read n =>
    if n ≤ s.buffer.availableBytes then
      (s.buffer.readBytes n).map fun d => { s with
        buffer := s.buffer.didRead n
        got := s.got ++ d }
    else none
  | .reset => some { buffer := s.buffer.reset }

/-- the stream is sound: the pointers are in order and in the block, what was read is what was
written first, and the rest of it is what can be read -/
structure Sound (s : Stream) : Prop where
  start_le : s.buffer.preBuffer ≤ s.buffer.readPointer
  read_le : s.buffer.readPointer ≤ s.buffer.writePointer
  write_le : s.buffer.writePointer ≤ s.buffer.preBuffer + s.buffer.preBufferSize
  size : s.buffer.block.length = s.buffer.preBufferSize
  size_lt : s.buffer.preBufferSize < 2 ^ 64
  got : s.got <+: s.written
  rest : s.buffer.readBytes s.buffer.availableBytes = some (s.written.drop s.got.length)

/-- the size to which the block would grow is a `size_t` -/
def Fits (s : Stream) : Action → Prop
  | .ensureCapacityForWrite _ _ numBytes =>
    s.buffer.writePointer - s.buffer.preBuffer + numBytes < 2 ^ 64
  | _ => True

instance : ∀ (s : Stream) (a : Action), Decidable (Fits s a)
  | _, .ensureCapacityForWrite _ _ _ => inferInstanceAs (Decidable (_ < _))
  | _, .write _ => instDecidableTrue
  | _, .read _ => instDecidableTrue
  | _, .reset => instDecidableTrue

/-! ## one operation -/

section
variable {s s' : Stream}

theorem Sound.used (h : Sound s) :
    subSize s.buffer.writePointer s.buffer.preBuffer =
      s.buffer.writePointer - s.buffer.preBuffer := by
  have h1 := h.start_le
  have h2 := h.read_le
  have h3 := h.write_le
  have h4 := h.size_lt
  exact subSize_of_le (by omega) (by omega)

theorem Sound.availableBytes (h : Sound s) :
    s.buffer.availableBytes = s.buffer.writePointer - s.buffer.readPointer := by
  have h1 := h.start_le
  have h2 := h.read_le
  have h3 := h.write_le
  have h4 := h.size_lt
  exact subSize_of_le (by omega) (by omega)

theorem Sound.availableSpace (h : Sound s) :
    s.buffer.availableSpace =
      s.buffer.preBufferSize - (s.buffer.writePointer - s.buffer.preBuffer) := by
  have h3 := h.write_le
  have h4 := h.size_lt
  unfold GCDAsyncSocketPreBuffer.availableSpace
  rw [h.used]
  exact subSize_of_le (by omega) (by omega)

theorem Sound.unread (h : Sound s) :
    (s.buffer.block.drop (s.buffer.readPointer - s.buffer.preBuffer)).take
      (s.buffer.writePointer - s.buffer.readPointer) = s.written.drop s.got.length := by
  have h1 := h.start_le
  have h2 := h.read_le
  have h3 := h.write_le
  have h4 := h.size
  have hr := h.rest
  unfold readBytes at hr
  rw [h.availableBytes, load_of_le (by omega)] at hr
  exact Option.some.inj hr

theorem Sound.of_unread (h1 : s.buffer.preBuffer ≤ s.buffer.readPointer)
    (h2 : s.buffer.readPointer ≤ s.buffer.writePointer)
    (h3 : s.buffer.writePointer ≤ s.buffer.preBuffer + s.buffer.preBufferSize)
    (h4 : s.buffer.block.length = s.buffer.preBufferSize)
    (h5 : s.buffer.preBufferSize < 2 ^ 64) (h6 : s.got <+: s.written)
    (h7 : (s.buffer.block.drop (s.buffer.readPointer - s.buffer.preBuffer)).take
      (s.buffer.writePointer - s.buffer.readPointer) = s.written.drop s.got.length) : Sound s where
  start_le := h1
  read_le := h2
  write_le := h3
  size := h4
  size_lt := h5
  got := h6
  rest := by
    unfold GCDAsyncSocketPreBuffer.availableBytes readBytes
    rw [subSize_of_le h2 (by omega), load_of_le (by omega), h7]

/-- **Growing keeps the bytes**, the pointers keep their distance to the start. -/
theorem Sound.ensure (h : Sound s) (address : Nat) (fresh : Nat → UInt8) {numBytes : Nat}
    (hfit : s.buffer.writePointer - s.buffer.preBuffer + numBytes < 2 ^ 64) :
    Sound { s with buffer := s.buffer.ensureCapacityForWrite address fresh numBytes } := by
  have h1 := h.start_le
  have h2 := h.read_le
  have h3 := h.write_le
  have h4 := h.size
  have h5 := h.size_lt
  have hspace := h.availableSpace
  unfold ensureCapacityForWrite
  by_cases hgt : numBytes > s.buffer.availableSpace
  · rw [if_pos hgt]
    have hread : subSize s.buffer.readPointer s.buffer.preBuffer =
        s.buffer.readPointer - s.buffer.preBuffer := subSize_of_le h1 (by omega)
    have hsize : addSize s.buffer.preBufferSize (subSize numBytes s.buffer.availableSpace) =
        s.buffer.writePointer - s.buffer.preBuffer + numBytes := by
      rw [subSize_of_le (by omega) (by omega), addSize_of_lt (by omega)]
      omega
    simp only [hread, h.used, hsize]
    obtain ⟨more, hmore⟩ := realloc_of_le fresh s.buffer.block
      (n := s.buffer.writePointer - s.buffer.preBuffer + numBytes) (by omega)
    refine Sound.of_unread (Nat.le_add_right _ _) ?_ ?_ (length_realloc _ _ _) hfit h.got ?_
    · exact Nat.add_le_add_left (Nat.sub_le_sub_right h2 _) address
    · exact Nat.add_le_add_left (Nat.le_add_right _ _) address
    · show ((realloc fresh s.buffer.block _).drop (address + _ - address)).take
        (address + _ - (address + _)) = _
      rw [hmore, Nat.add_sub_cancel_left, Nat.add_sub_add_left]
      rw [show s.buffer.writePointer - s.buffer.preBuffer -
        (s.buffer.readPointer - s.buffer.preBuffer) =
          s.buffer.writePointer - s.buffer.readPointer by omega]
      rw [drop_take_append (by omega)]
      exact h.unread
  · rw [if_neg hgt]
    exact h

def Stream.wrote (s : Stream) (d : Bytes) : Stream :=
  { s with
    buffer := { s.buffer with
      block := AutoBuffer.overwrite s.buffer.block (s.buffer.writePointer - s.buffer.preBuffer) d
      writePointer := s.buffer.writePointer + d.length }
    written := s.written ++ d }

theorem Sound.write (h : Sound s) {d : Bytes} (hd : d.length ≤ s.buffer.availableSpace) :
    step s (.write d) = some (s.wrote d) ∧ Sound (s.wrote d) := by
  have h1 := h.start_le
  have h2 := h.read_le
  have h3 := h.write_le
  have h4 := h.size
  have h5 := h.size_lt
  have h6 := h.got.length_le
  rw [h.availableSpace] at hd
  have hin : s.buffer.writePointer - s.buffer.preBuffer + d.length ≤ s.buffer.block.length := by
    omega
  refine ⟨?_, Sound.of_unread h1 ?_ ?_ ?_ h5 ?_ ?_⟩
  · simp only [step, fill]
    rw [if_pos (by rw [h.availableSpace]; exact hd), memcpyTo_of_le hin]
    rfl
  · show s.buffer.readPointer ≤ s.buffer.writePointer + d.length
    omega
  · show s.buffer.writePointer + d.length ≤ s.buffer.preBuffer + s.buffer.preBufferSize
    omega
  · exact (AutoBuffer.length_overwrite _ _ _ hin).trans h4
  · exact h.got.trans (List.prefix_append _ _)
  · show ((AutoBuffer.overwrite _ _ _).drop (s.buffer.readPointer - s.buffer.preBuffer)).take
      (s.buffer.writePointer + d.length - s.buffer.readPointer) =
        (s.written ++ d).drop s.got.length
    have hu := h.unread
    rw [List.drop_append_of_le_length h6, ← hu,
      ← show s.buffer.writePointer - s.buffer.preBuffer -
        (s.buffer.readPointer - s.buffer.preBuffer) =
          s.buffer.writePointer - s.buffer.readPointer by omega,
      ← drop_take_overwrite (by omega) hin]
    congr 1
    omega

theorem Sound.drained (h : Sound s) {written : Bytes} :
    Sound { buffer := s.buffer.reset, written := written, got := written } := by
  refine Sound.of_unread (Nat.le_refl _) (Nat.le_refl _) (Nat.le_add_right _ _) h.size h.size_lt
    (List.prefix_refl _) ?_
  show (List.drop _ _).take (s.buffer.preBuffer - s.buffer.preBuffer) = _
  rw [Nat.sub_self, List.take_zero, List.drop_length]

theorem Sound.read (h : Sound s) {n : Nat} (hn : n ≤ s.buffer.availableBytes) :
    ∃ d, s.buffer.readBytes n = some d ∧
      Sound { s with buffer := s.buffer.didRead n, got := s.got ++ d } := by
  have h1 := h.start_le
  have h2 := h.read_le
  have h3 := h.write_le
  have h4 := h.size
  have hu := h.unread
  rw [h.availableBytes] at hn
  have hd : (s.buffer.block.drop (s.buffer.readPointer - s.buffer.preBuffer)).take n =
      (s.written.drop s.got.length).take n := by
    rw [← hu, List.take_take, Nat.min_eq_left hn]
  have hlen : (s.written.drop s.got.length).length =
      s.buffer.writePointer - s.buffer.readPointer := by
    rw [← hu, List.length_take, List.length_drop]
    omega
  obtain ⟨rest, hrest⟩ := h.got
  have hdrop : s.written.drop s.got.length = rest := by
    rw [← hrest, List.drop_left' rfl]
  rw [hdrop] at hd hlen hu
  refine ⟨_, load_of_le (by omega), ?_⟩
  rw [hd]
  unfold didRead
  by_cases hlast : s.buffer.readPointer + n = s.buffer.writePointer
  · rw [if_pos hlast, List.take_of_length_le (by omega), hrest]
    exact h.drained
  · rw [if_neg hlast]
    have hgot : (s.got ++ rest.take n).length = s.got.length + n := by
      rw [List.length_append, List.length_take]
      omega
    refine Sound.of_unread ?_ ?_ h3 h4 h.size_lt ?_ ?_
    · show s.buffer.preBuffer ≤ s.buffer.readPointer + n
      omega
    · show s.buffer.readPointer + n ≤ s.buffer.writePointer
      omega
    · refine ⟨rest.drop n, ?_⟩
      rw [List.append_assoc, List.take_append_drop, hrest]
    · show (s.buffer.block.drop (s.buffer.readPointer + n - s.buffer.preBuffer)).take
        (s.buffer.writePointer - (s.buffer.readPointer + n)) = s.written.drop _
      rw [hgot, ← List.drop_drop, hdrop, ← hu, List.drop_take, List.drop_drop,
        show s.buffer.readPointer + n - s.buffer.preBuffer =
          s.buffer.readPointer - s.buffer.preBuffer + n by omega, Nat.sub_sub]

/-! ## all operations -/

/-- **Every operation keeps the stream sound.** -/
theorem sound_step {a : Action} (h : Sound s) (hfit : Fits s a) (hs : step s a = some s') :
    Sound s' := by
  cases a with
  | ensureCapacityForWrite address fresh numBytes =>
    simp only [step] at hs
    split at hs
    · cases hs
      exact h.ensure address fresh hfit
    · cases hs
  | write d =>
    by_cases hd : d.length ≤ s.buffer.availableSpace
    · obtain ⟨hw, hsound⟩ := h.write hd
      rw [hw] at hs
      cases hs
      exact hsound
    · simp only [step] at hs
      rw [if_neg hd] at hs
      cases hs
  | read n =>
    simp only [step] at hs
    split at hs
    · rename_i hn
      obtain ⟨d, hd, hsound⟩ := h.read hn
      rw [hd] at hs
      cases hs
      exact hsound
    · cases hs
  | reset =>
    cases hs
    exact h.drained

/-- a new size that wraps around is smaller than what is in use -/
theorem not_sound_step {a : Action} (h : Sound s) (hfit : ¬ Fits s a) (hs : step s a = some s') :
    ¬ Sound s' := by
  intro h'
  have h1 := h.start_le
  have h2 := h.read_le
  have h3 := h.write_le
  have h5 := h.size_lt
  have hspace := h.availableSpace
  cases a with
  | ensureCapacityForWrite address fresh numBytes =>
    have hwrap : ¬ s.buffer.writePointer - s.buffer.preBuffer + numBytes <
        2 ^ 64 := hfit
    simp only [step] at hs
    split at hs
    · rename_i hlt
      cases hs
      have hw := h'.write_le
      unfold ensureCapacityForWrite at hw
      rw [if_pos (by omega)] at hw
      simp only [h.used] at hw
      rw [subSize_of_le (by omega) (by omega)] at hw
      unfold addSize at hw
      omega
    · cases hs
  | write d => exact hfit trivial
  | read n => exact hfit trivial
  | reset => exact hfit trivial

theorem Sound.served (h : Sound s) :
    (∀ d : Bytes, d.length ≤ s.buffer.availableSpace → (step s (.write d)).isSome) ∧
      ∀ n, n ≤ s.buffer.availableBytes → (step s (.read n)).isSome := by
  constructor
  · intro d hd
    rw [(h.write hd).1]
    rfl
  · intro n hn
    obtain ⟨d, hd, -⟩ := h.read hn
    simp only [step]
    rw [if_pos hn, hd]
    rfl

end

def start (address : Nat) (fresh : Nat → UInt8) (numBytes : Nat) : Stream :=
  { buffer := initWithCapacity address fresh numBytes }

theorem sound_start (address : Nat) (fresh : Nat → UInt8) {numBytes : Nat}
    (h : numBytes < 2 ^ 64) : Sound (start address fresh numBytes) := by
  refine Sound.of_unread (Nat.le_refl _) (Nat.le_refl _) (Nat.le_add_right _ _)
    (cells_length _ _ _) h (List.prefix_refl _) ?_
  show (List.drop _ _).take (address - address) = []
  rw [Nat.sub_self, List.take_zero]

/-- **A byte stream.**  As long as every size asked for is a `size_t` together with what is in use,
the pointers stay in order and in the block, what was read is what was written first, and the rest
can be read; an `ensureCapacityForWrite` for which it is not breaks this. -/
theorem byte_stream (address : Nat) (fresh : Nat → UInt8) (numBytes : Nat) (s : Stream)
    (hn : numBytes < 2 ^ 64)
    (h : Runs.Run step Fits (start address fresh numBytes) s) :
    Sound s ∧
    (∀ d : Bytes, d.length ≤ s.buffer.availableSpace → (step s (.write d)).isSome) ∧
    (∀ n, n ≤ s.buffer.availableBytes → (step s (.read n)).isSome) ∧
    ∀ a s', step s a = some s' → ¬ Fits s a → ¬ Sound s' := by
  have hs : Sound s := h.keep (fun _ _ _ hP hC hstep => sound_step hP hC hstep)
    (sound_start address fresh hn)
  exact ⟨hs, hs.served.1, hs.served.2, fun a s' hstep hfit => not_sound_step hs hfit hstep⟩

/-- a full buffer of two bytes that moves as it grows, and a read across the old end -/
def moving : List Action :=
  [.write [7, 8], .ensureCapacityForWrite 200 (fun _ => 0) 3, .write [9, 10, 11], .read 4]

theorem byte_stream_two : ∃ s : Stream, s.buffer.preBuffer = 200 ∧ s.written = [7, 8, 9, 10, 11] ∧
    s.got = [7, 8, 9, 10] ∧ Sound s := by
  obtain ⟨s, hrun, hs⟩ : ∃ s, Runs.Run step Fits (start 100 (fun _ => 0) 2) s ∧
      (s.buffer.preBuffer == 200 && s.written == [7, 8, 9, 10, 11] && s.got == [7, 8, 9, 10]) =
        true := Runs.Run.of_checked (l := moving) (by decide +kernel)
  simp only [Bool.and_eq_true, beq_iff_eq] at hs
  exact ⟨s, hs.1.1, hs.1.2, hs.2, (byte_stream 100 (fun _ => 0) 2 s (by decide) hrun).1⟩

/-- `ensureCapacityForWrite:SIZE_MAX` with two bytes in use shrinks the block -/
theorem shrinks : ∃ s, Runs.AnyRun step (start 100 (fun _ => 0) 2) s ∧ ¬ Sound s := by
  have h0 : Sound (start 100 (fun _ => 0) 2) := sound_start 100 (fun _ => 0) (by decide)
  obtain ⟨hw, hs⟩ := h0.write (d := [7, 8]) (by rw [h0.availableSpace]; decide)
  obtain ⟨s', hgrow⟩ : ∃ s', step ((start 100 (fun _ => 0) 2).wrote [7, 8])
      (.ensureCapacityForWrite 200 (fun _ => 0) (2 ^ 64 - 1)) = some s' := by
    simp only [step]
    rw [if_pos (by decide)]
    exact ⟨_, rfl⟩
  have h1 : Runs.AnyRun step (start 100 (fun _ => 0) 2) _ := Runs.Run.one trivial hw
  have h2 := h1.tail ⟨_, trivial, hgrow⟩
  exact ⟨_, h2, not_sound_step hs (by unfold Fits; decide) hgrow⟩

end GCDAsyncSocketPreBuffer
