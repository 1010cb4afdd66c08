import Mathlib.Data.List.Basic
import Mathlib.Algebra.Order.Ring.Nat
import LearnDiary.Base.Bytes

/-!
# `AutoBuffer` (comm/autobuffer.cc)

`parray_` is the whole allocated block, so `Capacity()` is its length; the bytes from `length_` on
are the spare capacity: zero after an allocation, whatever a `memmove` left there later.  The
asserted order `Pos <= Length <= Capacity` is part of the type.  `realloc` succeeds, and `ASSERT`
only logs (`__assert.c` outside DEBUG builds).

`data` is the abstract view (the bytes below `Length`); `write_data`, `move_data` say what the
operations do to it when the cursor stands at the end, as it does in the buffers of the parser.
-/

structure AutoBuffer where
  parray_ : Bytes
  pos_ : Nat
  length_ : Nat
  malloc_unitsize_ : Nat
  unit_pos : 0 < malloc_unitsize_
  pos_le : pos_ ≤ length_
  length_le : length_ ≤ parray_.length

namespace AutoBuffer

/-- `AutoBuffer(size_t _size)` -/
def empty (_size : Nat) (h : 0 < _size) : AutoBuffer :=
  ⟨[], 0, 0, _size, h, Nat.le_refl _, Nat.le_refl _⟩

/-- the default `_size` is 128 -/
def new : AutoBuffer := empty 128 (by decide)

def capacity (b : AutoBuffer) : Nat := b.parray_.length

/-- the bytes below `Length()` -/
def data (b : AutoBuffer) : Bytes := b.parray_.take b.length_

theorem data_length (b : AutoBuffer) : b.data.length = b.length_ := by
  have h := b.length_le
  unfold data
  rw [List.length_take]
  omega

/-! ## the block -/

def roundUp (n u : Nat) : Nat := (n + u - 1) / u * u

theorem le_roundUp (n u : Nat) (hu : 0 < u) : n ≤ roundUp n u := by
  have h1 := Nat.div_add_mod (n + u - 1) u
  have h2 := Nat.mod_lt (n + u - 1) hu
  have h3 : roundUp n u = u * ((n + u - 1) / u) := Nat.mul_comm _ _
  omega

theorem dvd_roundUp (n u : Nat) : u ∣ roundUp n u := Nat.dvd_mul_left _ _

/-- `__FitSize`: the block grows to a multiple of the unit, the new part is zeroed -/
def fitSize (b : AutoBuffer) (_len : Nat) : Bytes :=
  if b.capacity < _len then
    b.parray_ ++ List.replicate (roundUp _len b.malloc_unitsize_ - b.capacity) 0
  else b.parray_

theorem le_fitSize (b : AutoBuffer) (n : Nat) : n ≤ (b.fitSize n).length := by
  have h := le_roundUp n b.malloc_unitsize_ b.unit_pos
  unfold fitSize capacity
  split
  · rw [List.length_append, List.length_replicate]
    omega
  · omega

theorem prefix_fitSize (b : AutoBuffer) (n : Nat) : b.parray_ <+: b.fitSize n := by
  unfold fitSize
  split
  · exact List.prefix_append _ _
  · exact List.prefix_refl _

theorem capacity_le_fitSize (b : AutoBuffer) (n : Nat) : b.capacity ≤ (b.fitSize n).length :=
  (b.prefix_fitSize n).length_le

theorem take_fitSize (b : AutoBuffer) (n k : Nat) (h : k ≤ b.capacity) :
    (b.fitSize n).take k = b.parray_.take k := by
  obtain ⟨t, ht⟩ := b.prefix_fitSize n
  rw [← ht, List.take_append_of_le_length h]

theorem unit_dvd_fitSize (b : AutoBuffer) (n : Nat) (h : b.malloc_unitsize_ ∣ b.capacity) :
    b.malloc_unitsize_ ∣ (b.fitSize n).length := by
  have h1 := le_roundUp n b.malloc_unitsize_ b.unit_pos
  unfold fitSize
  split
  · rename_i hlt
    have e : (b.parray_ ++ List.replicate (roundUp n b.malloc_unitsize_ - b.capacity) 0).length
        = roundUp n b.malloc_unitsize_ := by
      rw [List.length_append, List.length_replicate]
      unfold capacity at *
      omega
    rw [e]
    exact dvd_roundUp _ _
  · exact h

/-- `memcpy` of `d` to offset `pos` -/
def overwrite (l : Bytes) (pos : Nat) (d : Bytes) : Bytes := l.take pos ++ d ++ l.drop (pos + d.length)

theorem length_overwrite (l : Bytes) (pos : Nat) (d : Bytes) (h : pos + d.length ≤ l.length) :
    (overwrite l pos d).length = l.length := by
  unfold overwrite
  rw [List.length_append, List.length_append, List.length_take, List.length_drop]
  omega

/-! ## operations -/

/-- `Write(const void*, size_t)`: at the cursor, which moves behind the written bytes -/
def write (b : AutoBuffer) (_pbuffer : Bytes) : AutoBuffer where
  parray_ := overwrite (b.fitSize (b.pos_ + _pbuffer.length)) b.pos_ _pbuffer
  pos_ := b.pos_ + _pbuffer.length
  length_ := max (b.pos_ + _pbuffer.length) b.length_
  malloc_unitsize_ := b.malloc_unitsize_
  unit_pos := b.unit_pos
  pos_le := Nat.le_max_left _ _
  length_le := by
    have h1 := b.le_fitSize (b.pos_ + _pbuffer.length)
    have h2 := b.capacity_le_fitSize (b.pos_ + _pbuffer.length)
    have h3 : b.length_ ≤ b.capacity := b.length_le
    rw [length_overwrite _ _ _ h1]
    omega

/-- `AllocWrite(size_t _readytowrite, true)` -/
def allocWrite (b : AutoBuffer) (_readytowrite : Nat) : AutoBuffer where
  parray_ := b.fitSize (b.pos_ + _readytowrite)
  pos_ := b.pos_
  length_ := max (b.pos_ + _readytowrite) b.length_
  malloc_unitsize_ := b.malloc_unitsize_
  unit_pos := b.unit_pos
  pos_le := by have h := b.pos_le; omega
  length_le := by
    have h1 := b.le_fitSize (b.pos_ + _readytowrite)
    have h2 := b.capacity_le_fitSize (b.pos_ + _readytowrite)
    have h3 : b.length_ ≤ b.capacity := b.length_le
    omega

/-- `Length(off_t _pos, size_t _lenght)` under its asserted preconditions -/
def setLength (b : AutoBuffer) (_pos _lenght : Nat) (h : _pos ≤ _lenght)
    (h' : _lenght ≤ b.capacity) : AutoBuffer :=
  { b with pos_ := _pos, length_ := _lenght, pos_le := h, length_le := h' }

/-- `Move` by a positive length: room is made in front and zeroed -/
def moveUp (b : AutoBuffer) (n : Nat) : AutoBuffer where
  parray_ := List.replicate n 0 ++ b.data ++ (b.fitSize (b.length_ + n)).drop (b.length_ + n)
  pos_ := b.pos_ + n
  length_ := b.length_ + n
  malloc_unitsize_ := b.malloc_unitsize_
  unit_pos := b.unit_pos
  pos_le := Nat.add_le_add_right b.pos_le n
  length_le := by
    rw [List.length_append, List.length_append, List.length_replicate, data_length]
    omega

/-- `Move` by a negative length: the first bytes are dropped, at most `Length()` of them.  The
bytes of the block from the new `Length` on stay as they were. -/
def moveDown (b : AutoBuffer) (n : Nat) : AutoBuffer where
  parray_ := b.data.drop n ++ b.parray_.drop (b.length_ - min n b.length_)
  pos_ := b.pos_ - n
  length_ := b.length_ - n
  malloc_unitsize_ := b.malloc_unitsize_
  unit_pos := b.unit_pos
  pos_le := Nat.sub_le_sub_right b.pos_le n
  length_le := by
    rw [List.length_append, List.length_drop, data_length]
    omega

def move (b : AutoBuffer) (_move_len : Int) : AutoBuffer :=
  if 0 < _move_len then b.moveUp _move_len.toNat else b.moveDown (-_move_len).toNat

/-! ## the abstract view -/

@[simp] theorem empty_data (n : Nat) (h : 0 < n) : (empty n h).data = [] := rfl
@[simp] theorem new_data : new.data = [] := rfl

@[simp] theorem write_unit (b : AutoBuffer) (d : Bytes) :
    (b.write d).malloc_unitsize_ = b.malloc_unitsize_ := rfl
@[simp] theorem write_pos (b : AutoBuffer) (d : Bytes) :
    (b.write d).pos_ = b.pos_ + d.length := rfl

/-- a write replaces or extends exactly the written range -/
theorem write_data_eq (b : AutoBuffer) (d : Bytes) :
    (b.write d).data = b.data.take b.pos_ ++ d ++ b.data.drop (b.pos_ + d.length) := by
  have h1 := b.pos_le
  have h2 : b.length_ ≤ b.capacity := b.length_le
  have h3 := b.le_fitSize (b.pos_ + d.length)
  have h4 := b.capacity_le_fitSize (b.pos_ + d.length)
  generalize hF : b.fitSize (b.pos_ + d.length) = F at h3 h4
  have eF : F.take b.capacity = b.parray_ := by
    rw [← hF, b.take_fitSize _ _ (Nat.le_refl _)]
    exact List.take_length
  have eD : b.data = F.take b.length_ := by
    unfold data
    rw [← eF, List.take_take]
    congr 1
    omega
  show (overwrite (b.fitSize (b.pos_ + d.length)) b.pos_ d).take
    (max (b.pos_ + d.length) b.length_) = _
  rw [hF, eD]
  unfold overwrite
  have e1 : (F.take b.pos_).length = b.pos_ := by rw [List.length_take]; omega
  have e2 : (F.take b.pos_ ++ d).length = b.pos_ + d.length := by rw [List.length_append, e1]
  rw [List.take_append, e2, List.take_of_length_le (by rw [e2]; omega), List.take_take,
    Nat.min_eq_left h1, List.drop_take]
  congr 2
  omega

theorem write_write_data (b : AutoBuffer) (d e : Bytes) :
    ((b.write d).write e).data = (b.write (d ++ e)).data := by
  have hl := b.data_length
  have hp := b.pos_le
  have e1 : (b.data.take b.pos_).length = b.pos_ := by rw [List.length_take]; omega
  have e2 : (b.data.take b.pos_ ++ d).length = b.pos_ + d.length := by rw [List.length_append, e1]
  rw [write_data_eq, write_data_eq, write_data_eq, write_pos, List.take_append, e2,
    List.take_of_length_le (by rw [e2]), Nat.sub_self, List.take_zero, List.append_nil,
    List.drop_append, e2, List.drop_eq_nil_of_le (by rw [e2]; omega), List.nil_append,
    List.drop_drop, List.length_append, List.append_assoc _ d e]
  congr 2
  omega

theorem write_data (b : AutoBuffer) (d : Bytes) (h : b.pos_ = b.length_) :
    (b.write d).data = b.data ++ d := by
  have hl := b.data_length
  rw [write_data_eq, h, List.take_of_length_le (by omega), List.drop_eq_nil_of_le (by omega),
    List.append_nil]

theorem write_end {b : AutoBuffer} (hb : b.pos_ = b.length_) (d : Bytes) :
    (b.write d).pos_ = (b.write d).length_ ∧ (b.write d).length_ = b.length_ + d.length := by
  constructor
  · show b.pos_ + d.length = max (b.pos_ + d.length) b.length_
    omega
  · show max (b.pos_ + d.length) b.length_ = b.length_ + d.length
    omega

theorem moveDown_data (b : AutoBuffer) (n : Nat) : (b.moveDown n).data = b.data.drop n := by
  have hl := b.data_length
  show (b.data.drop n ++ _).take (b.length_ - n) = _
  rw [List.take_append_of_le_length (by rw [List.length_drop]; omega)]
  exact List.take_of_length_le (by rw [List.length_drop]; omega)

theorem move_neg (b : AutoBuffer) (n : Nat) : b.move (-(n : Int)) = b.moveDown n := by
  unfold move
  rw [if_neg (by omega)]
  congr 1
  omega

theorem move_data (b : AutoBuffer) (n : Nat) : (b.move (-(n : Int))).data = b.data.drop n := by
  rw [move_neg, moveDown_data]

theorem move_length (b : AutoBuffer) (n : Nat) : (b.move (-(n : Int))).length_ = b.length_ - n := by
  rw [move_neg]
  rfl

theorem move_zero (b : AutoBuffer) : b.move 0 = b := by
  have e : b.data.drop 0 ++ b.parray_.drop (b.length_ - min 0 b.length_) = b.parray_ := by
    rw [List.drop_zero, Nat.zero_min, Nat.sub_zero]
    exact List.take_append_drop _ _
  show (⟨b.data.drop 0 ++ b.parray_.drop (b.length_ - min 0 b.length_), _, _, _, _, _, _⟩ :
    AutoBuffer) = b
  cases b
  simp only [e]
  rfl

/-! ## a receive buffer

The buffers of the parser are only written at their end and shortened at their front. -/

/-- cursor at the end, block a multiple of the default unit -/
structure Tail (b : AutoBuffer) : Prop where
  pos : b.pos_ = b.length_
  unit : b.malloc_unitsize_ = 128
  dvd : 128 ∣ b.capacity

theorem Tail.new : Tail AutoBuffer.new := ⟨rfl, rfl, Nat.dvd_zero 128⟩

theorem Tail.write {b : AutoBuffer} (h : Tail b) (d : Bytes) : Tail (b.write d) where
  pos := by
    have h1 := h.pos
    show b.pos_ + d.length = max (b.pos_ + d.length) b.length_
    omega
  unit := h.unit
  dvd := by
    have h1 := b.unit_dvd_fitSize (b.pos_ + d.length) (by rw [h.unit]; exact h.dvd)
    rw [h.unit] at h1
    show 128 ∣ (overwrite _ _ _).length
    rwa [length_overwrite _ _ _ (b.le_fitSize _)]

theorem moveDown_capacity (b : AutoBuffer) (n : Nat) : (b.moveDown n).capacity = b.capacity := by
  have hl := b.data_length
  have h2 : b.length_ ≤ b.capacity := b.length_le
  show (b.data.drop n ++ b.parray_.drop (b.length_ - min n b.length_)).length = b.parray_.length
  unfold capacity at h2
  rw [List.length_append, List.length_drop, List.length_drop]
  omega

theorem Tail.moveDown {b : AutoBuffer} (h : Tail b) (n : Nat) : Tail (b.moveDown n) where
  pos := by
    have h1 := h.pos
    show b.pos_ - n = b.length_ - n
    omega
  unit := h.unit
  dvd := by rw [moveDown_capacity]; exact h.dvd

theorem Tail.moveUp {b : AutoBuffer} (h : Tail b) (n : Nat) : Tail (b.moveUp n) where
  pos := by
    have h1 := h.pos
    show b.pos_ + n = b.length_ + n
    omega
  unit := h.unit
  dvd := by
    have h1 := b.unit_dvd_fitSize (b.length_ + n) (by rw [h.unit]; exact h.dvd)
    have h2 := b.le_fitSize (b.length_ + n)
    have e : (b.moveUp n).capacity = (b.fitSize (b.length_ + n)).length := by
      show (List.replicate n 0 ++ b.data ++ (b.fitSize (b.length_ + n)).drop (b.length_ + n)).length = _
      rw [List.length_append, List.length_append, List.length_replicate, data_length,
        List.length_drop]
      omega
    rw [h.unit] at h1
    rwa [e]

theorem Tail.move {b : AutoBuffer} (h : Tail b) (_move_len : Int) : Tail (b.move _move_len) := by
  unfold AutoBuffer.move
  split
  · exact h.moveUp _
  · exact h.moveDown _

end AutoBuffer
