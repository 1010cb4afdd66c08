import LearnDiary.GcdSocket.PreBuffer

/-!
# `GCDAsyncReadPacket` (Socket/GCDAsyncReadPacket.m)

`NSUInteger` has 64 bits, its sums and differences wrap around.  A failed `NSAssert` and a buffer
that cannot grow have no outcome.

* `ensureCapacity_length`   room for a read, as long as the packet begins inside its buffer;
* `Kept.step`               what an operation of a run keeps;
* `capacity`                runs.
-/

structure GCDAsyncReadPacket where
  buffer : Bytes
  startOffset : Nat
  bytesDone : Nat
  maxLength : Nat
  readLength : Nat
  term : Option Bytes
  bufferOwner : Bool
  originalBufferLength : Nat

namespace GCDAsyncReadPacket
open Reads RawBuffer

/-- `timeout` and `tag` are only stored -/
def initWithData (d : Option Bytes) (s m l : Nat) (e : Option Bytes) : GCDAsyncReadPacket :=
  match d with
  | some d =>
    { buffer := d
      startOffset := s
      bytesDone := 0
      maxLength := m
      readLength := l
      term := e
      bufferOwner := false
      originalBufferLength := d.length }
  | none =>
    { buffer := if l > 0 then List.replicate l 0 else []
      startOffset := 0
      bytesDone := 0
      maxLength := m
      readLength := l
      term := e
      bufferOwner := true
      originalBufferLength := 0 }

/-- `[buffer increaseLengthBy:extra]`: zeros, where the length stays an `NSUInteger` -/
def increaseLengthBy (buffer : Bytes) (extra : Nat) : Option Bytes :=
  if buffer.length + extra < 2 ^ 64 then some (buffer ++ List.replicate extra 0)
  else none

def ensureCapacityForAdditionalDataOfLength (p : GCDAsyncReadPacket) (bytesToRead : Nat) :
    Option GCDAsyncReadPacket :=
  let buffSize := p.buffer.length
  let buffUsed := addSize p.startOffset p.bytesDone
  let buffSpace := subSize buffSize buffUsed
  if bytesToRead > buffSpace then
    (increaseLengthBy p.buffer (subSize bytesToRead buffSpace)).map fun buffer =>
      { p with buffer := buffer }
  else some p

/-- the length and `*shouldPreBufferPtr` -/
def optimalReadLengthWithDefault (p : GCDAsyncReadPacket) (defaultValue : Nat) : Nat × Bool :=
  if p.readLength > 0 then (subSize p.readLength p.bytesDone, false)
  else
    let result :=
      if p.maxLength > 0 then min defaultValue (subSize p.maxLength p.bytesDone) else defaultValue
    let buffSpace := subSize p.buffer.length (addSize p.startOffset p.bytesDone)
    (result, !(buffSpace ≥ result : Bool))

def readLengthForNonTermWithHint (p : GCDAsyncReadPacket) (bytesAvailable : Nat) : Option Nat :=
  if p.term ≠ none then none
  else if ¬ bytesAvailable > 0 then none
  else if p.readLength > 0 then some (min bytesAvailable (subSize p.readLength p.bytesDone))
  else
    some (if p.maxLength > 0 then min bytesAvailable (subSize p.maxLength p.bytesDone)
      else bytesAvailable)

/-- the length and `*shouldPreBufferPtr` -/
def readLengthForTermWithHint (p : GCDAsyncReadPacket) (bytesAvailable : Nat) :
    Option (Nat × Bool) :=
  if p.term = none then none
  else if ¬ bytesAvailable > 0 then none
  else
    let result :=
      if p.maxLength > 0 then min bytesAvailable (subSize p.maxLength p.bytesDone)
      else bytesAvailable
    let buffSpace := subSize p.buffer.length (addSize p.startOffset p.bytesDone)
    some (result, !(buffSpace ≥ result : Bool))

/-! ## reads -/

/-- the method that bounds a read, with its argument -/
inductive Bound where
  | optimal (defaultValue : Nat)
  | nonTerm (bytesAvailable : Nat)
  | term (bytesAvailable : Nat)

def Bound.length (p : GCDAsyncReadPacket) : Bound → Option Nat
  | .optimal defaultValue => some (p.optimalReadLengthWithDefault defaultValue).1
  | .nonTerm bytesAvailable => p.readLengthForNonTermWithHint bytesAvailable
  | .term bytesAvailable => (p.readLengthForTermWithHint bytesAvailable).map Prod.fst

/-- the bytes `d` put behind those that are there -/
def appendBytes (p : GCDAsyncReadPacket) (d : Bytes) : Option GCDAsyncReadPacket :=
  (memcpyTo p.buffer (p.startOffset + p.bytesDone) d).map fun buffer => { p with buffer := buffer }

/-- room is made for `n` bytes, and at most so many are read, not more than the bound says -/
structure Read where
  bound : Bound
  n : Nat
  d : Bytes

def step (p : GCDAsyncReadPacket) (a : Read) : Option GCDAsyncReadPacket :=
  (a.bound.length p).bind fun length =>
    if a.d.length ≤ length ∧ a.d.length ≤ a.n then
      (p.ensureCapacityForAdditionalDataOfLength a.n).bind fun p =>
        (p.appendBytes a.d).map fun p => { p with bytesDone := p.bytesDone + a.d.length }
    else none

/-- a terminator's read is bounded by `maxLength` only: it is made on a packet without a
`readLength` -/
def Apart (p : GCDAsyncReadPacket) (a : Read) : Prop :=
  ∀ bytesAvailable, a.bound = .term bytesAvailable → p.readLength = 0

/-- what the operations keep: the packet lies in its buffer, and has not more than its share -/
structure Kept (m l : Nat) (p : GCDAsyncReadPacket) : Prop where
  max_eq : p.maxLength = m
  read_eq : p.readLength = l
  inside : p.startOffset + p.bytesDone ≤ p.buffer.length
  length_lt : p.buffer.length < 2 ^ 64
  read_le : 0 < l → p.bytesDone ≤ l
  max_le : l = 0 → 0 < m → p.bytesDone ≤ m

section
variable {p q : GCDAsyncReadPacket} {m l : Nat}

/-- **Room for a read.** -/
theorem ensureCapacity_length (hin : p.startOffset + p.bytesDone ≤ p.buffer.length)
    (hlt : p.buffer.length < 2 ^ 64) {n : Nat}
    (h : p.ensureCapacityForAdditionalDataOfLength n = some q) :
    ∃ buffer, q = { p with buffer := buffer } ∧ p.buffer <+: buffer ∧
      buffer.length < 2 ^ 64 ∧
      (n < 2 ^ 64 → p.startOffset + p.bytesDone + n ≤ buffer.length) := by
  have hused : addSize p.startOffset p.bytesDone = p.startOffset + p.bytesDone :=
    addSize_of_lt (by omega)
  have hspace : subSize p.buffer.length (p.startOffset + p.bytesDone) =
      p.buffer.length - (p.startOffset + p.bytesDone) := subSize_of_le hin (by omega)
  simp only [ensureCapacityForAdditionalDataOfLength, hused, hspace] at h
  split at h
  · obtain ⟨buffer, hb, rfl⟩ := Option.map_eq_some_iff.mp h
    unfold increaseLengthBy at hb
    split at hb
    · rename_i hsum
      cases hb
      refine ⟨_, rfl, List.prefix_append _ _, ?_, fun hn => ?_⟩
      · rw [List.length_append, List.length_replicate]
        exact hsum
      · rw [List.length_append, List.length_replicate,
          subSize_of_le (by omega) (by omega)]
        omega
    · cases hb
  · cases h
    exact ⟨p.buffer, rfl, List.prefix_refl _, hlt, fun _ => by omega⟩

theorem ensureCapacity_some (hin : p.startOffset + p.bytesDone ≤ p.buffer.length) {n : Nat}
    (hlt : p.buffer.length + n < 2 ^ 64) :
    ∃ q, p.ensureCapacityForAdditionalDataOfLength n = some q := by
  have hused : addSize p.startOffset p.bytesDone = p.startOffset + p.bytesDone :=
    addSize_of_lt (by omega)
  have hspace : subSize p.buffer.length (p.startOffset + p.bytesDone) =
      p.buffer.length - (p.startOffset + p.bytesDone) := subSize_of_le hin (by omega)
  simp only [ensureCapacityForAdditionalDataOfLength, hused, hspace]
  split
  · have hextra := subSize_le (a := n) (b := p.buffer.length - (p.startOffset + p.bytesDone))
      (by omega)
    unfold increaseLengthBy
    rw [if_pos (by omega)]
    exact ⟨_, rfl⟩
  · exact ⟨p, rfl⟩

theorem Kept.bound (h : Kept m l p) {a : Read} (hapart : Apart p a) {length : Nat}
    (hlen : a.bound.length p = some length) :
    (0 < l → length ≤ l - p.bytesDone) ∧ (l = 0 → 0 < m → length ≤ m - p.bytesDone) := by
  have hr : 0 < l → subSize l p.bytesDone ≤ l - p.bytesDone := fun h0 => subSize_le (h.read_le h0)
  have hm : l = 0 → 0 < m → subSize m p.bytesDone ≤ m - p.bytesDone := fun h0 h1 =>
    subSize_le (h.max_le h0 h1)
  cases hb : a.bound with
  | optimal defaultValue =>
    rw [hb] at hlen
    simp only [Bound.length, optimalReadLengthWithDefault, h.read_eq, h.max_eq] at hlen
    split at hlen
    · cases hlen
      exact ⟨hr, fun h0 => by omega⟩
    · cases hlen
      refine ⟨fun h0 => by omega, fun h0 h1 => ?_⟩
      rw [if_pos h1]
      exact Nat.le_trans (Nat.min_le_right _ _) (hm h0 h1)
  | nonTerm bytesAvailable =>
    rw [hb] at hlen
    simp only [Bound.length, readLengthForNonTermWithHint, h.read_eq, h.max_eq] at hlen
    split at hlen
    · cases hlen
    · split at hlen
      · cases hlen
      · split at hlen
        · cases hlen
          exact ⟨fun h0 => Nat.le_trans (Nat.min_le_right _ _) (hr h0), fun h0 => by omega⟩
        · cases hlen
          refine ⟨fun h0 => by omega, fun h0 h1 => ?_⟩
          rw [if_pos h1]
          exact Nat.le_trans (Nat.min_le_right _ _) (hm h0 h1)
  | term bytesAvailable =>
    have h0 := hapart bytesAvailable hb
    rw [hb] at hlen
    obtain ⟨r, hr, rfl⟩ := Option.map_eq_some_iff.mp hlen
    simp only [readLengthForTermWithHint, h.max_eq] at hr
    split at hr
    · cases hr
    · split at hr
      · cases hr
      · cases hr
        refine ⟨fun h1 => ?_, fun h0 h1 => ?_⟩
        · rw [← h.read_eq, h0] at h1
          exact absurd h1 (Nat.lt_irrefl 0)
        · simp only [h1, if_true]
          exact Nat.le_trans (Nat.min_le_right _ _) (hm h0 h1)

theorem Kept.step (h : Kept m l p) {a : Read} (hapart : Apart p a)
    (hs : GCDAsyncReadPacket.step p a = some q) : Kept m l q := by
  obtain ⟨length, hlen, hs⟩ := Option.bind_eq_some_iff.mp hs
  obtain ⟨hread, hmax⟩ := h.bound hapart hlen
  split at hs
  · rename_i hd
    obtain ⟨p', hp', hs⟩ := Option.bind_eq_some_iff.mp hs
    obtain ⟨buffer, rfl, -, hlt, -⟩ := ensureCapacity_length h.inside h.length_lt hp'
    obtain ⟨p'', hp'', rfl⟩ := Option.map_eq_some_iff.mp hs
    obtain ⟨buffer', hb', rfl⟩ := Option.map_eq_some_iff.mp hp''
    unfold memcpyTo at hb'
    split at hb'
    · rename_i hin
      cases hb'
      have hover := AutoBuffer.length_overwrite _ _ _ hin
      exact
        { max_eq := h.max_eq
          read_eq := h.read_eq
          inside := by
            rw [hover]
            simp only at hin ⊢
            omega
          length_lt := by
            rw [hover]
            exact hlt
          read_le := fun h0 => by
            have := hread h0
            have := h.read_le h0
            simp only
            omega
          max_le := fun h0 h1 => by
            have := hmax h0 h1
            have := h.max_le h0 h1
            simp only
            omega }
    · cases hb'
  · cases hs

theorem Kept.init (d : Option Bytes) {s : Nat} (m : Nat) {l : Nat} (e : Option Bytes)
    (hd : ∀ b, d = some b → b.length < 2 ^ 64 ∧ s ≤ b.length)
    (hl : l < 2 ^ 64) : Kept m l (initWithData d s m l e) := by
  cases d with
  | some b =>
    obtain ⟨hlt, hs⟩ := hd b rfl
    exact ⟨rfl, rfl, hs, hlt, fun _ => Nat.zero_le _, fun _ _ => Nat.zero_le _⟩
  | none =>
    refine ⟨rfl, rfl, Nat.zero_le _, ?_, fun _ => Nat.zero_le _, fun _ _ => Nat.zero_le _⟩
    simp only [initWithData]
    split
    · rw [List.length_replicate]
      exact hl
    · exact Nat.zero_lt_of_lt hl

end

/-- **Accounting.**  A packet that begins inside its buffer never holds more than its `readLength`,
or its `maxLength` where that is set alone, and room is made for what is to be read. -/
theorem capacity (d : Option Bytes) (s m l : Nat) (e : Option Bytes) (p : GCDAsyncReadPacket)
    (hd : ∀ b, d = some b → b.length < 2 ^ 64 ∧ s ≤ b.length)
    (hl : l < 2 ^ 64) (h : Runs.Run step Apart (initWithData d s m l e) p) :
    (0 < l → p.bytesDone ≤ l) ∧ (l = 0 → 0 < m → p.bytesDone ≤ m) ∧
    ∀ n q, n < 2 ^ 64 → p.ensureCapacityForAdditionalDataOfLength n = some q →
      q.startOffset + q.bytesDone + n ≤ q.buffer.length := by
  have hk : Kept m l p := h.keep (fun _ _ _ hP hC hs => hP.step hC hs) (Kept.init d m e hd hl)
  refine ⟨hk.read_le, hk.max_le, fun n q hn hq => ?_⟩
  obtain ⟨buffer, rfl, -, -, hle⟩ := ensureCapacity_length hk.inside hk.length_lt hq
  exact hle hn

/-- three bytes read into a caller's buffer -/
theorem capacity_three : ∃ p : GCDAsyncReadPacket, p.bytesDone = 3 ∧ p.bytesDone ≤ 4 := by
  obtain ⟨p, hp, hdone⟩ := Option.map_eq_some_iff.mp
    (show (step (initWithData (some [0, 0]) 1 0 4 none) ⟨.nonTerm 3, 3, [1, 2, 3]⟩).map bytesDone =
      some 3 by decide +kernel)
  have h : Runs.Run step Apart (initWithData (some [0, 0]) 1 0 4 none) p :=
    Runs.Run.one (fun _ hb => by cases hb) hp
  exact ⟨p, hdone, (capacity (some [0, 0]) 1 0 4 none p (fun b hb => by cases hb; decide) (by decide)
    h).1 (by decide)⟩

/-- a start offset behind the end of the buffer, and a terminator with a `readLength` -/
theorem capacity_fails :
    ((initWithData (some []) 1 0 0 none).ensureCapacityForAdditionalDataOfLength 1).map
      (fun q => (q.startOffset + q.bytesDone, q.buffer.length)) = some (1, 0) ∧
    (step (initWithData none 0 0 1 (some [10])) ⟨.term 2, 2, [1, 2]⟩).map
      (fun p => (p.bytesDone, p.readLength)) = some (2, 1) :=
  ⟨by decide +kernel, by decide +kernel⟩

end GCDAsyncReadPacket
