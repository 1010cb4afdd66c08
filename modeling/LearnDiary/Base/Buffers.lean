import LearnDiary.Lib.Tape
import LearnDiary.Base.RawBuffer

/-!
# Operations on an `AutoBuffer` (comm/autobuffer.cc)

A buffer is a byte list with a cursor: a raw operation under its assertions, with sizes below 2^63,
is an operation on the list, if the buffer has a unit or does not grow.

* `exec_typed`     one operation on one buffer with a unit;
* `exec_setUnit`   a buffer that does not grow makes no use of its unit;
* `exec_refines`   one operation on one buffer.
-/

namespace RawBuffer

inductive Op where
  | write (_pbuffer : Bytes)
  | writeAt (_pos : Int) (_pbuffer : Bytes)
  | writeSeek (_seek : TSeek) (_pbuffer : Bytes)
  | read (_len : Nat)
  | seek (_offset : Int) (_eorigin : TSeek)
  | move (_move_len : Int)
  | length (_pos : Int) (_lenght : Nat)
  | allocWrite (_readytowrite : Nat) (_changelength : Bool)
  | addCapacity (_len : Nat)
  | attachBlock (_pbuffer : Bytes)
  | detach
  | reset

/-- memory that is handed to the caller, and how much of it is meant -/
abbrev Out := Option (Bytes × Nat)

section
variable (fresh : Nat → UInt8)

def exec (b : RawBuffer) : Op → Option (RawBuffer × Out)
  | .write d => (b.write fresh d).map (·, none)
  | .writeAt p d => (b.writeAt fresh p d).map (·, none)
  | .writeSeek s d => (b.writeSeek fresh s d).map (·, none)
  | .read n => (b.read n).map fun r => (r.1, some (r.2, r.2.length))
  | .seek off org => some (b.seek off org, none)
  | .move n => (b.move fresh n).map (·, none)
  | .length p n => some (b.setLength p n, none)
  | .allocWrite n c => (b.allocWrite fresh n c).map (·, none)
  | .addCapacity n => (b.addCapacity fresh n).map (·, none)
  | .attachBlock p => some (b.attachBlock p, none)
  | .detach => some (b.detach.2, some b.detach.1)
  | .reset => some (b.reset, none)

end

def Asserted (b : RawBuffer) : Op → Prop
  | .write _ => 0 ≤ b.pos_ ∧ toSize b.pos_ ≤ b.length_
  | .writeAt p _ => 0 ≤ p ∧ toSize p ≤ b.length_
  | .read _ => 0 ≤ b.pos_ ∧ toSize b.pos_ ≤ b.length_
  | .length p n => 0 ≤ p ∧ toSize p ≤ n ∧ n ≤ b.capacity_
  | _ => True

def start (b : RawBuffer) : TSeek → Int
  | .ESeekStart => 0
  | .ESeekCur => b.pos_
  | .ESeekEnd => b.length_

/-- the sizes an operation computes are below 2^63 -/
def Small (b : RawBuffer) : Op → Prop
  | .write d => b.pos_ + d.length < 2 ^ 63
  | .writeAt p d => p + d.length < 2 ^ 63
  | .writeSeek s d => b.start s + d.length < 2 ^ 63
  | .read _ => True
  | .seek off org => -2 ^ 63 ≤ off ∧ b.start org + off < 2 ^ 63
  | .move n => -2 ^ 63 < n ∧ b.length_ + n < 2 ^ 63
  | .length p n => p < 2 ^ 63 ∧ n < 2 ^ 63
  | .allocWrite n _ => b.pos_ + n < 2 ^ 63
  | .addCapacity n => b.capacity_ + n < 2 ^ 63
  | .attachBlock p => p.length < 2 ^ 63
  | .detach => True
  | .reset => True

/-! ## what the operations are for -/

/-- where a seek starts from, on a tape -/
def startOn (t : Tape UInt8) : TSeek → Nat
  | .ESeekStart => 0
  | .ESeekCur => t.pos
  | .ESeekEnd => t.cells.length

/-- the operation on byte list and cursor -/
def Spec (t : Tape UInt8) (t' : Tape UInt8) (out : Out) : Op → Prop
  | .write d => t.Write d t' ∧ out = none
  | .writeAt p d => t.WriteAt p.toNat d t' ∧ out = none
  | .writeSeek s d => t.WriteAt (startOn t s) d t' ∧ out = none
  | .read n => t.Read n t' ∧ out = some (t.ahead n, (t.ahead n).length)
  | .seek off org => t.Seek (startOn t org + off) t' ∧ out = none
  | .move n => (if 0 < n then t.Prepend 0 n.toNat t' else t.Drop (-n).toNat t') ∧ out = none
  | .length p n => t.Resize n p.toNat t' ∧ out = none
  | .allocWrite n c =>
    (if c then t.Resize (max (t.pos + n) t.cells.length) t.pos t' else t.Same t') ∧ out = none
  | .addCapacity _ => t.Same t' ∧ out = none
  | .attachBlock p => t'.Is p 0 ∧ out = none
  | .detach => t'.Is [] 0 ∧ ∃ block, out = some (block, t.cells.length) ∧
      block.take t.cells.length = t.cells
  | .reset => t'.Is [] 0 ∧ out = none

end RawBuffer

/-! ## the list of a typed buffer -/

namespace AutoBuffer

def tape (b : AutoBuffer) : Tape UInt8 :=
  ⟨b.data, b.pos_, by rw [b.data_length]; exact b.pos_le⟩

theorem take_eq (l : Bytes) (m n : Nat) : l.take n = (l.take m).take n ++ (l.drop m).take (n - m) := by
  by_cases h : n ≤ m
  · rw [List.take_take, Nat.min_eq_left h, Nat.sub_eq_zero_of_le h, List.take_zero, List.append_nil]
  · have e : n = m + (n - m) := by omega
    have ht : (l.take m).take n = l.take m :=
      List.take_of_length_le (by rw [List.length_take]; omega)
    calc l.take n = l.take (m + (n - m)) := by rw [← e]
      _ = l.take m ++ (l.drop m).take (n - m) := List.take_add
      _ = (l.take m).take n ++ (l.drop m).take (n - m) := by rw [ht]

section
variable (b : AutoBuffer)

theorem writeAt_data {p : Nat} (h : p ≤ b.length_) (d : Bytes) :
    (b.writeAt p d).data = Tape.put b.data p d := by
  have e : (b.seekTo p).pos_ = p := Nat.min_eq_left h
  have hw := (b.seekTo p).write_data_eq d
  rw [e] at hw
  show (overwrite (b.fitSize (p + d.length)) p d).take (max (p + d.length) b.length_) = _
  rw [show Tape.put b.data p d = _ from hw.symm]
  show _ = (overwrite (b.fitSize (min p b.length_ + d.length)) (min p b.length_) d).take
    (max (min p b.length_ + d.length) b.length_)
  rw [Nat.min_eq_left h]

theorem fit_data (n : Nat) : (b.fit n).data = b.data := b.take_fitSize n b.length_ b.length_le

theorem moveUp_data (n : Nat) : (b.moveUp n).data = List.replicate n 0 ++ b.data := by
  have hl := b.data_length
  show (List.replicate n 0 ++ b.data ++ _).take (b.length_ + n) = _
  exact List.take_left' (by rw [List.length_append, List.length_replicate]; omega)

theorem setLength_resize {p n : Nat} (h : p ≤ n) (h' : n ≤ b.capacity) :
    b.tape.Resize n p (b.setLength p n h h').tape := by
  have hd : (b.setLength p n h h').data = b.data.take n ++ (b.parray_.drop b.length_).take (n - b.length_) :=
    take_eq b.parray_ b.length_ n
  refine ⟨(b.parray_.drop b.length_).take (n - b.length_), ⟨hd, rfl⟩, ?_⟩
  show (b.data.take n ++ _).length = n
  rw [← hd, data_length]
  rfl

theorem allocWrite_resize (n : Nat) :
    b.tape.Resize (max (b.pos_ + n) b.data.length) b.pos_ (b.allocWrite n).tape := by
  have hl := b.data_length
  have ht : (b.fitSize (b.pos_ + n)).take b.length_ = b.data := b.take_fitSize _ _ b.length_le
  have hd : (b.allocWrite n).data = b.data.take (max (b.pos_ + n) b.data.length) ++
      ((b.fitSize (b.pos_ + n)).drop b.length_).take (max (b.pos_ + n) b.length_ - b.length_) := by
    have h := take_eq (b.fitSize (b.pos_ + n)) b.length_ (max (b.pos_ + n) b.length_)
    rw [ht] at h
    rw [hl]
    exact h
  refine ⟨_, ⟨hd, rfl⟩, ?_⟩
  show (b.data.take _ ++ _).length = _
  rw [← hd, data_length, hl]
  rfl

end

end AutoBuffer

/-! ## one operation -/

namespace RawBuffer
open AutoBuffer

/-- the raw buffer is that of a typed one, whose list and cursor are the tape's -/
def Reps (r : RawBuffer) (t : Tape UInt8) : Prop :=
  ∃ b : AutoBuffer, b.raw = r ∧ t = b.tape ∧ b.length_ < 2 ^ 63 ∧ b.malloc_unitsize_ < 2 ^ 63

/-- `0 <= Pos <= Length <= Capacity`, and the block is as long as `Capacity` -/
structure Ordered (r : RawBuffer) : Prop where
  pos_nonneg : 0 ≤ r.pos_
  pos_le : r.pos_ ≤ r.length_
  length_le : r.length_ ≤ r.capacity_
  block : r.parray_.length = r.capacity_

theorem Reps.ordered {r : RawBuffer} {t : Tape UInt8} (h : Reps r t) : r.Ordered := by
  obtain ⟨b, rfl, -, -, -⟩ := h
  exact ⟨Int.natCast_nonneg _, Int.ofNat_le.mpr b.pos_le, b.length_le, rfl⟩

theorem Reps.new {n : Nat} (h : 0 < n) (h' : n < 2 ^ 63) : Reps (new n) Tape.empty :=
  ⟨AutoBuffer.empty n h, rfl, rfl, Nat.two_pow_pos 63, h'⟩

theorem Reps.of (b : AutoBuffer) (h : b.length_ < 2 ^ 63) (h' : b.malloc_unitsize_ < 2 ^ 63) :
    Reps b.raw b.tape := ⟨b, rfl, rfl, h, h'⟩

section
variable (fresh : Nat → UInt8) {b : AutoBuffer} (hl : b.length_ < 2 ^ 63)
  (hu : b.malloc_unitsize_ < 2 ^ 63)

include hl hu

/-- **One operation** under its assertions, with sizes below 2^63, has an outcome, and list and
cursor are what it is for. -/
theorem exec_typed {op : Op} (ha : Asserted b.raw op) (hs : Small b.raw op) :
    ∃ (b' : AutoBuffer) (out : Out), b.raw.exec fresh op = some (b'.raw, out) ∧
      Spec b.tape b'.tape out op ∧ b'.length_ < 2 ^ 63 ∧ b'.malloc_unitsize_ < 2 ^ 63 := by
  have hp := b.pos_le
  have hd := b.data_length
  cases op with
  | write d =>
    have hs : (b.pos_ : Int) + d.length < 2 ^ 63 := hs
    have e := raw_write fresh b (d := d) (by omega) hl hu
    refine ⟨b.write d, none, ?_, ⟨⟨b.write_data_eq d, rfl⟩, rfl⟩, ?_, hu⟩
    · show (b.raw.write fresh d).map _ = _
      rw [e]
      rfl
    · show max _ _ < 2 ^ 63
      omega
  | writeAt p d =>
    have hs : p + d.length < 2 ^ 63 := hs
    obtain ⟨h0, h1⟩ := ha
    have h2 := toSize_of_lt h0 (by omega)
    have h3 : toSize p ≤ b.length_ := h1
    have e := raw_writeAt fresh b (p := p.toNat) (d := d) (by omega) hu
    rw [Int.toNat_of_nonneg h0] at e
    refine ⟨b.writeAt p.toNat d, none, ?_, ⟨⟨b.writeAt_data (by omega) d, rfl⟩, rfl⟩, ?_, hu⟩
    · show (b.raw.writeAt fresh p d).map _ = _
      rw [e]
      rfl
    · show max _ _ < 2 ^ 63
      omega
  | writeSeek s d =>
    have hst : b.raw.start s = b.base s := by cases s <;> rfl
    have hto : startOn b.tape s = b.base s := by
      cases s with
      | ESeekStart => rfl
      | ESeekCur => rfl
      | ESeekEnd => exact hd
    have hs : b.raw.start s + d.length < 2 ^ 63 := hs
    have hle : b.base s ≤ b.length_ := by
      cases s with
      | ESeekStart => exact Nat.zero_le _
      | ESeekCur => exact hp
      | ESeekEnd => exact Nat.le_refl _
    have e := raw_writeSeek fresh b (d := d) s (by omega) hu
    refine ⟨b.writeAt (b.base s) d, none, ?_, ⟨?_, rfl⟩, ?_, hu⟩
    · show (b.raw.writeSeek fresh s d).map _ = _
      rw [e]
      rfl
    · show b.tape.WriteAt (startOn b.tape s) d _
      rw [hto]
      exact ⟨b.writeAt_data hle d, rfl⟩
    · show max _ _ < 2 ^ 63
      omega
  | read n =>
    have e := raw_read b n hl
    have hle : b.pos_ + ((b.data.drop b.pos_).take n).length ≤ b.length_ := by
      rw [List.length_take, List.length_drop, hd]
      omega
    refine ⟨b.seekTo (b.pos_ + (b.tape.ahead n).length), _, ?_, ⟨⟨rfl, Nat.min_eq_left hle⟩, rfl⟩,
      hl, hu⟩
    show (b.raw.read n).map _ = _
    rw [e]
    rfl
  | seek off org =>
    have hst : b.raw.start org = b.base org := by cases org <;> rfl
    have hto : startOn b.tape org = b.base org := by
      cases org with
      | ESeekStart => rfl
      | ESeekCur => rfl
      | ESeekEnd => exact hd
    obtain ⟨h1, h2⟩ := hs
    have e := raw_seek b off org hl h1 (by omega)
    refine ⟨_, none, congrArg (fun r => some (r, none)) e, ⟨⟨rfl, ?_⟩, rfl⟩, hl, hu⟩
    show min _ b.length_ = min (startOn b.tape org + off).toNat b.data.length
    rw [hto, hd]
  | move n =>
    obtain ⟨h1, h2⟩ := hs
    have h2 : (b.length_ : Int) + n < 2 ^ 63 := h2
    have e := raw_move fresh b (n := n) hl h1 h2 hu
    refine ⟨b.move n, none, ?_, ⟨?_, rfl⟩, ?_, ?_⟩
    · show (b.raw.move fresh n).map _ = _
      rw [e]
      rfl
    · unfold AutoBuffer.move
      split
      · exact ⟨b.moveUp_data _, rfl⟩
      · refine ⟨?_, ?_⟩
        · show (b.moveDown _).data = b.data.drop (min _ b.data.length)
          rw [moveDown_data]
          by_cases h3 : (-n).toNat ≤ b.data.length
          · rw [Nat.min_eq_left h3]
          · rw [List.drop_eq_nil_of_le (by omega), List.drop_eq_nil_of_le (by omega)]
        · show b.pos_ - (-n).toNat = b.pos_ - min (-n).toNat b.data.length
          omega
    · unfold AutoBuffer.move
      split
      · show b.length_ + n.toNat < 2 ^ 63
        omega
      · show b.length_ - (-n).toNat < 2 ^ 63
        omega
    · unfold AutoBuffer.move
      split <;> exact hu
  | length p n =>
    obtain ⟨h0, h1, h2⟩ := ha
    obtain ⟨h3, h4⟩ := hs
    have h5 := toSize_of_lt h0 h3
    have h6 : p.toNat ≤ n := by omega
    have e := raw_setLength b h6 h2 h4
    rw [Int.toNat_of_nonneg h0] at e
    exact ⟨b.setLength p.toNat n h6 h2, none, congrArg (fun r => some (r, none)) e,
      ⟨b.setLength_resize h6 h2, rfl⟩, h4, hu⟩
  | allocWrite n c =>
    have hs : (b.pos_ : Int) + n < 2 ^ 63 := hs
    have e := raw_allocWrite fresh b (n := n) (by omega) hu c
    cases c with
    | true =>
      refine ⟨b.allocWrite n, none, ?_, ⟨b.allocWrite_resize n, rfl⟩, ?_, hu⟩
      · show (b.raw.allocWrite fresh n true).map _ = _
        rw [e]
        rfl
      · show max _ _ < 2 ^ 63
        omega
    | false =>
      refine ⟨b.fit (b.pos_ + n), none, ?_, ⟨⟨b.fit_data _, rfl⟩, rfl⟩, hl, hu⟩
      show (b.raw.allocWrite fresh n false).map _ = _
      rw [e]
      rfl
  | addCapacity n =>
    have hs : b.capacity + n < 2 ^ 63 := hs
    have e := raw_addCapacity fresh b hs hu
    refine ⟨b.fit (b.capacity + n), none, ?_, ⟨⟨b.fit_data _, rfl⟩, rfl⟩, hl, hu⟩
    show (b.raw.addCapacity fresh n).map _ = _
    rw [e]
    rfl
  | attachBlock p =>
    refine ⟨b.attachBlock p, none, rfl, ⟨⟨?_, rfl⟩, rfl⟩, hs, hu⟩
    exact List.take_length
  | detach =>
    refine ⟨b.reset, _, rfl, ⟨⟨rfl, rfl⟩, b.parray_, ?_, ?_⟩, Nat.two_pow_pos 63, hu⟩
    · show some (b.parray_, b.length_) = some (b.parray_, b.data.length)
      rw [hd]
    · show b.parray_.take b.data.length = b.data
      rw [hd]
      rfl
  | reset => exact ⟨b.reset, none, rfl, ⟨⟨rfl, rfl⟩, rfl⟩, Nat.two_pow_pos 63, hu⟩

end

/-! ## the unit of a buffer -/

def setUnit (b : RawBuffer) (n : Nat) : RawBuffer := { b with malloc_unitsize_ := n }

/-- what the operation asks of `__FitSize` -/
def need (b : RawBuffer) : Op → Nat
  | .write d => addSize (toSize b.pos_) d.length
  | .writeAt p d => addSize (toSize p) d.length
  | .writeSeek .ESeekStart d => addSize (toSize 0) d.length
  | .writeSeek .ESeekCur d => addSize (toSize b.pos_) d.length
  | .writeSeek .ESeekEnd d => addSize (toSize (toOff b.length_)) d.length
  | .move n => if 0 < n then addSize b.length_ (toSize n) else 0
  | .allocWrite n _ => addSize (toSize b.pos_) n
  | .addCapacity n => addSize b.capacity_ n
  | _ => 0

/-- the buffer has a unit, or the operation does not make it grow -/
def Grows (b : RawBuffer) (op : Op) : Prop := 0 < b.malloc_unitsize_ ∨ b.need op ≤ b.capacity_

section
variable (fresh : Nat → UInt8)

theorem fitSize_of_le {b : RawBuffer} {n : Nat} (h : n ≤ b.capacity_) : b.fitSize fresh n = some b :=
  if_neg (Nat.not_lt.mpr h)

theorem fitSize_setUnit {b : RawBuffer} {n : Nat} (u : Nat) (h : n ≤ b.capacity_) :
    (b.setUnit u).fitSize fresh n = some (b.setUnit u) := fitSize_of_le fresh h

theorem writeAt_setUnit {b : RawBuffer} {p : Int} {d : Bytes} (u : Nat)
    (h : addSize (toSize p) d.length ≤ b.capacity_) :
    (b.setUnit u).writeAt fresh p d = (b.writeAt fresh p d).map (·.setUnit u) := by
  unfold writeAt
  dsimp only
  rw [fitSize_of_le fresh h, fitSize_setUnit fresh u h]
  show (memcpyTo b.parray_ (toSize p) d).map _ = Option.map _ ((memcpyTo b.parray_ (toSize p) d).map _)
  rw [Option.map_map]
  rfl

theorem move_setUnit {b : RawBuffer} {n : Int} (u : Nat) (h : b.need (.move n) ≤ b.capacity_) :
    (b.setUnit u).move fresh n = (b.move fresh n).map (·.setUnit u) := by
  unfold need at h
  unfold move
  by_cases h0 : 0 < n
  · simp only [h0, if_true] at h ⊢
    rw [fitSize_of_le fresh h, show (b.setUnit u).length_ = b.length_ from rfl,
      fitSize_setUnit fresh u h]
    show (memmove b.parray_ (toSize n) 0 b.length_).bind _ =
      Option.map _ ((memmove b.parray_ (toSize n) 0 b.length_).bind _)
    rw [Option.map_bind]
    congr 1
    funext p
    show (memset p 0 (toSize n)).map _ = Option.map _ ((memset p 0 (toSize n)).map _)
    rw [Option.map_map]
    rfl
  · simp only [h0, if_false]
    rw [Option.map_map]
    rfl

/-- **A buffer that does not grow makes no use of its unit.** -/
theorem exec_setUnit {b : RawBuffer} {op : Op} (u : Nat) (h : b.need op ≤ b.capacity_) :
    (b.setUnit u).exec fresh op = (b.exec fresh op).map fun r => (r.1.setUnit u, r.2) := by
  have hmap : ∀ x : Option RawBuffer, (x.map (·.setUnit u)).map (fun r => (r, (none : Out))) =
      (x.map fun r => (r, (none : Out))).map fun r => (r.1.setUnit u, r.2) := by
    intro x
    rw [Option.map_map, Option.map_map]
    rfl
  cases op with
  | write d =>
    show ((b.setUnit u).write fresh d).map _ = _
    unfold write
    rw [show (b.setUnit u).pos_ = b.pos_ from rfl, writeAt_setUnit fresh u h]
    show _ = (((b.writeAt fresh b.pos_ d).map _).map _).map _
    rw [Option.map_map, Option.map_map, Option.map_map, Option.map_map]
    rfl
  | writeAt p d => exact (congrArg (Option.map _) (writeAt_setUnit fresh u h)).trans (hmap _)
  | writeSeek s d =>
    cases s with
    | ESeekStart | ESeekCur | ESeekEnd =>
      exact (congrArg (Option.map _) (writeAt_setUnit fresh u h)).trans (hmap _)
  | move n => exact (congrArg (Option.map _) (move_setUnit fresh u h)).trans (hmap _)
  | allocWrite n c =>
    show ((b.setUnit u).allocWrite fresh n c).map _ = ((b.allocWrite fresh n c).map _).map _
    have h : addSize (toSize b.pos_) n ≤ b.capacity_ := h
    unfold allocWrite
    dsimp only
    rw [show (b.setUnit u).pos_ = b.pos_ from rfl, fitSize_setUnit fresh u h, fitSize_of_le fresh h]
    cases c <;> rfl
  | addCapacity n =>
    show ((b.setUnit u).addCapacity fresh n).map _ = ((b.addCapacity fresh n).map _).map _
    have h : addSize b.capacity_ n ≤ b.capacity_ := h
    unfold addCapacity
    rw [show (b.setUnit u).capacity_ = b.capacity_ from rfl, fitSize_setUnit fresh u h,
      fitSize_of_le fresh h]
    rfl
  | read n =>
    show ((b.setUnit u).read n).map _ = ((b.read n).map _).map _
    unfold read
    rw [Option.map_map, Option.map_map, Option.map_map]
    rfl
  | seek | length | attachBlock | detach | reset => rfl

end

/-- a buffer without a unit, with the unit 1 -/
def united (b : RawBuffer) : RawBuffer := b.setUnit (max b.malloc_unitsize_ 1)

theorem united_of_pos {b : RawBuffer} (h : 0 < b.malloc_unitsize_) : b.united = b := by
  unfold united
  rw [Nat.max_eq_left h]
  rfl

theorem Reps.ordered_united {r : RawBuffer} {t : Tape UInt8} (h : Reps r.united t) : r.Ordered :=
  ⟨h.ordered.pos_nonneg, h.ordered.pos_le, h.ordered.length_le, h.ordered.block⟩

/-- **One operation**, on a buffer with or without a unit. -/
theorem exec_refines (fresh : Nat → UInt8) {r : RawBuffer} {t : Tape UInt8} (h : Reps r.united t)
    {op : Op} (ha : Asserted r op) (hs : Small r op) (hg : Grows r op) :
    ∃ r' t' out, exec fresh r op = some (r', out) ∧ Spec t t' out op ∧ Reps r'.united t' := by
  obtain ⟨b, hb, rfl, hl, hu⟩ := h
  have ha' : Asserted b.raw op := by
    rw [hb]
    cases op with
    | _ => exact ha
  have hs' : Small b.raw op := by
    rw [hb]
    cases op with
    | writeSeek s d => cases s <;> exact hs
    | seek off org => cases org <;> exact hs
    | _ => exact hs
  obtain ⟨b', out, he, hsp, hl', hu'⟩ := exec_typed fresh hl hu ha' hs'
  rcases Nat.eq_zero_or_pos r.malloc_unitsize_ with h0 | h0
  · have hneed : b.raw.need op ≤ b.raw.capacity_ := by
      rw [hb]
      rcases hg with hg | hg
      · omega
      · cases op with
        | writeSeek s d => cases s <;> exact hg
        | _ => exact hg
    have hr : b.raw.setUnit 0 = r := by
      rw [hb]
      unfold united setUnit
      rw [← h0]
    -- the unit of the typed buffer stays 1
    have hone : b'.raw.setUnit 1 = b'.raw := by
      have h1 := exec_setUnit fresh 1 hneed
      rw [he, show b.raw.setUnit 1 = b.raw by rw [hb]; unfold united setUnit; rw [h0]; rfl, he] at h1
      exact (congrArg Prod.fst (Option.some.inj h1)).symm
    refine ⟨b'.raw.setUnit 0, b'.tape, out, ?_, hsp, ?_⟩
    · rw [← hr, exec_setUnit fresh 0 hneed, he]
      rfl
    · have hunit : (b'.raw.setUnit 0).united = b'.raw := hone
      rw [hunit]
      exact Reps.of b' hl' hu'
  · rw [united_of_pos h0] at hb
    refine ⟨b'.raw, b'.tape, out, ?_, hsp, ?_⟩
    · rw [← hb]
      exact he
    · rw [united_of_pos b'.unit_pos]
      exact Reps.of b' hl' hu'

end RawBuffer
