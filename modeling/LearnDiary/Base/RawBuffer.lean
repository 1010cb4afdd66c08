import LearnDiary.Base.AutoBuffer
import LearnDiary.Base.Sizes
import LearnDiary.Lib.Reads

/-!
# `AutoBuffer` field by field (comm/autobuffer.cc)

`RawBuffer` has the counters of the class as they are: a signed cursor, sizes that wrap around and a
block that may be shorter than `capacity_` says.  An access that leaves the block, a copy from a
block that `realloc` has freed or between ranges that overlap, and a division by a unit of 0 have no
outcome.  `AutoBuffer.raw` is the raw buffer of a typed one; the lemmas
`raw_fitSize` to `raw_move` say that the raw operations compute the typed ones on it as long as
sizes stay below 2^63.
-/

structure RawBuffer where
  /-- the allocated block, empty for `NULL` -/
  parray_ : Bytes
  pos_ : Int
  length_ : Nat
  capacity_ : Nat
  malloc_unitsize_ : Nat
deriving DecidableEq

namespace RawBuffer
open Reads

/-! ## memory -/

/-- `memcpy(block + off, d, |d|)` -/
def memcpyTo (block : Bytes) (off : Nat) (d : Bytes) : Option Bytes :=
  if off + d.length ≤ block.length then some (AutoBuffer.overwrite block off d) else none

/-- the `n` bytes from `block + off` on -/
def load (block : Bytes) (off n : Nat) : Option Bytes :=
  if off + n ≤ block.length then some ((block.drop off).take n) else none

/-- `memset(block + off, 0, n)` -/
def memset (block : Bytes) (off n : Nat) : Option Bytes := memcpyTo block off (List.replicate n 0)

/-- `memmove(block + dst, block + src, n)` -/
def memmove (block : Bytes) (dst src n : Nat) : Option Bytes :=
  (load block src n).bind (memcpyTo block dst)

/-- `memcpy(block + dst, block + src, n)`: the ranges do not overlap; one copied onto itself stays, as
compilers have it that assign a structure by `memcpy` -/
def memcpyIn (block : Bytes) (dst src n : Nat) : Option Bytes :=
  if n = 0 ∨ src + n ≤ dst ∨ dst + n ≤ src ∨ src = dst then
    (load block src n).bind (memcpyTo block dst)
  else none

/-- `realloc(block, n)`: what a larger block has behind the old one is unspecified -/
def realloc (fresh : Nat → UInt8) (block : Bytes) (n : Nat) : Bytes :=
  block.take n ++ cells fresh block.length (n - block.length)

/-! ## operations -/

inductive TSeek where
  | ESeekStart
  | ESeekCur
  | ESeekEnd
deriving DecidableEq

def new (_size : Nat) : RawBuffer := ⟨[], 0, 0, 0, _size⟩

def reset (b : RawBuffer) : RawBuffer :=
  { b with parray_ := [], pos_ := 0, length_ := 0, capacity_ := 0 }

def target (b : RawBuffer) (_offset : Int) : TSeek → Int
  | .ESeekStart => _offset
  | .ESeekCur => toOff (b.pos_ + _offset)
  | .ESeekEnd => toOff (b.length_ + _offset)

def clamp (b : RawBuffer) (pos : Int) : Int :=
  let pos := if pos < 0 then 0 else pos
  if toSize pos > b.length_ then toOff b.length_ else pos

def seek (b : RawBuffer) (_offset : Int) (_eorigin : TSeek) : RawBuffer :=
  { b with pos_ := b.clamp (b.target _offset _eorigin) }

/-- `Length(_pos, _lenght)` -/
def setLength (b : RawBuffer) (_pos : Int) (_lenght : Nat) : RawBuffer :=
  { b with length_ := _lenght }.seek _pos .ESeekStart

section
variable (fresh : Nat → UInt8)

def fitSize (b : RawBuffer) (_len : Nat) : Option RawBuffer :=
  if _len > b.capacity_ then
    if b.malloc_unitsize_ = 0 then none
    else
      let mallocsize := (subSize (addSize _len b.malloc_unitsize_) 1 / b.malloc_unitsize_
        * b.malloc_unitsize_) % 2 ^ 64
      (memset (realloc fresh b.parray_ mallocsize) b.capacity_ (subSize mallocsize b.capacity_)).map
        fun p => { b with parray_ := p, capacity_ := mallocsize }
  else some b

/-- `AllocWrite(_readytowrite, _changelength)` -/
def allocWrite (b : RawBuffer) (_readytowrite : Nat) (_changelength : Bool) : Option RawBuffer :=
  let nLen := addSize (toSize b.pos_) _readytowrite
  (b.fitSize fresh nLen).map fun b =>
    if _changelength then { b with length_ := max nLen b.length_ } else b

def addCapacity (b : RawBuffer) (_len : Nat) : Option RawBuffer :=
  b.fitSize fresh (addSize b.capacity_ _len)

/-- `Write(const off_t& _pos, const void*, size_t)` -/
def writeAt (b : RawBuffer) (_pos : Int) (_pbuffer : Bytes) : Option RawBuffer :=
  let nLen := addSize (toSize _pos) _pbuffer.length
  (b.fitSize fresh nLen).bind fun b =>
    (memcpyTo b.parray_ (toSize _pos) _pbuffer).map fun p =>
      { b with length_ := max nLen b.length_, parray_ := p }

/-- `Write(const void*, size_t)` -/
def write (b : RawBuffer) (_pbuffer : Bytes) : Option RawBuffer :=
  (b.writeAt fresh b.pos_ _pbuffer).map (·.seek (toOff _pbuffer.length) .ESeekCur)

/-- `Write(TSeek, const void*, size_t)`: the cursor stays -/
def writeSeek (b : RawBuffer) (_seek : TSeek) (_pbuffer : Bytes) : Option RawBuffer :=
  let pos : Int := match _seek with
    | .ESeekStart => 0
    | .ESeekCur => b.pos_
    | .ESeekEnd => toOff b.length_
  b.writeAt fresh pos _pbuffer

/-- `Write(const off_t& _pos, const void*, size_t)` from `parray_ + off`: a growth frees what is to
be copied -/
def writeAtOwn (b : RawBuffer) (_pos : Int) (off _len : Nat) : Option RawBuffer :=
  let nLen := addSize (toSize _pos) _len
  if nLen > b.capacity_ then none
  else
    (memcpyIn b.parray_ (toSize _pos) off _len).map fun p =>
      { b with length_ := max nLen b.length_, parray_ := p }

/-- `Read(const off_t& _pos, void*, size_t)`: how many bytes is computed from `_pos`, and the bytes
are those at the cursor -/
def readAt (b : RawBuffer) (_pos : Int) (_len : Nat) : Option Bytes :=
  load b.parray_ (toSize b.pos_) (min (subSize b.length_ (toSize _pos)) _len)

/-- `Read(void*, size_t)` -/
def read (b : RawBuffer) (_len : Nat) : Option (RawBuffer × Bytes) :=
  (b.readAt b.pos_ _len).map fun d => (b.seek (toOff d.length) .ESeekCur, d)

def move (b : RawBuffer) (_move_len : Int) : Option RawBuffer :=
  if 0 < _move_len then
    (b.fitSize fresh (addSize b.length_ (toSize _move_len))).bind fun b =>
      (memmove b.parray_ (toSize _move_len) 0 b.length_).bind fun p =>
        (memset p 0 (toSize _move_len)).map fun p =>
          { b with parray_ := p }.setLength (toOff (b.pos_ + _move_len))
            (addSize b.length_ (toSize _move_len))
  else
    let move_len := toSize (-_move_len)
    let move_len := if move_len > b.length_ then b.length_ else move_len
    (memmove b.parray_ 0 move_len (subSize b.length_ move_len)).map fun p =>
      { b with parray_ := p }.setLength
        (if move_len < toSize b.pos_ then toOff (b.pos_ - move_len) else 0)
        (subSize b.length_ move_len)

/-- `Attach(void*, size_t)` of a whole block -/
def attachBlock (b : RawBuffer) (_pbuffer : Bytes) : RawBuffer :=
  { b.reset with parray_ := _pbuffer, length_ := _pbuffer.length, capacity_ := _pbuffer.length }

/-- `Attach(AutoBuffer&)`, without the reset of the other buffer -/
def attach (b _rhs : RawBuffer) : RawBuffer :=
  { b.reset with parray_ := _rhs.parray_, pos_ := _rhs.pos_, length_ := _rhs.length_
                 capacity_ := _rhs.capacity_ }

/-- `Detach(_plen)`: the block, its length in use, and the buffer -/
def detach (b : RawBuffer) : (Bytes × Nat) × RawBuffer := ((b.parray_, b.length_), b.reset)

end

/-! ## lemmas on memory -/

theorem memcpyTo_of_le {block d : Bytes} {off : Nat} (h : off + d.length ≤ block.length) :
    memcpyTo block off d = some (AutoBuffer.overwrite block off d) := if_pos h

theorem load_of_le {block : Bytes} {off n : Nat} (h : off + n ≤ block.length) :
    load block off n = some ((block.drop off).take n) := if_pos h

theorem load_length {block d : Bytes} {off n : Nat} (h : load block off n = some d) :
    d.length = n := by
  unfold load at h
  obtain ⟨hle, hd⟩ := Option.ite_none_right_eq_some.mp h
  cases hd
  rw [List.length_take, List.length_drop]
  omega

/-- within the block a write from the block itself is a write of the bytes that stand there -/
theorem writeAtOwn_eq (fresh : Nat → UInt8) {b : RawBuffer} {p : Int} {off n : Nat} {d : Bytes}
    (hcap : addSize (toSize p) n ≤ b.capacity_)
    (hsep : n = 0 ∨ off + n ≤ toSize p ∨ toSize p + n ≤ off ∨ off = toSize p)
    (hd : load b.parray_ off n = some d) : b.writeAtOwn p off n = b.writeAt fresh p d := by
  have hlen := load_length hd
  subst hlen
  unfold writeAtOwn writeAt fitSize memcpyIn
  dsimp only
  rw [if_neg (Nat.not_lt.mpr hcap), if_neg (Nat.not_lt.mpr hcap), if_pos hsep, hd]
  rfl

theorem length_realloc (fresh : Nat → UInt8) (block : Bytes) (n : Nat) :
    (realloc fresh block n).length = n := by
  unfold realloc
  rw [List.length_append, List.length_take, cells_length]
  omega

theorem realloc_of_le (fresh : Nat → UInt8) (block : Bytes) {n : Nat} (h : block.length ≤ n) :
    ∃ more, realloc fresh block n = block ++ more := by
  refine ⟨cells fresh block.length (n - block.length), ?_⟩
  unfold realloc
  rw [List.take_of_length_le h]

theorem drop_take_append {l more : Bytes} {i n : Nat} (h : i + n ≤ l.length) :
    ((l ++ more).drop i).take n = (l.drop i).take n := by
  rw [List.drop_append_of_le_length (by omega), List.take_append_of_le_length]
  rw [List.length_drop]
  omega

theorem drop_take_overwrite {block d : Bytes} {i j : Nat} (hij : i ≤ j)
    (hd : j + d.length ≤ block.length) :
    ((AutoBuffer.overwrite block j d).drop i).take (j - i + d.length) =
      (block.drop i).take (j - i) ++ d := by
  have hlen : (block.take j).length = j := by
    rw [List.length_take]
    omega
  have hlen' : ((block.drop i).take (j - i)).length = j - i := by
    rw [List.length_take, List.length_drop]
    omega
  unfold AutoBuffer.overwrite
  rw [List.append_assoc, List.drop_append_of_le_length (by omega), List.drop_take,
    ← List.append_assoc, List.take_left']
  rw [List.length_append, hlen']

/-- the new part of a block is cleared, whatever stood there -/
theorem memset_realloc (fresh : Nat → UInt8) (block : Bytes) {n : Nat} (h : block.length ≤ n) :
    memset (realloc fresh block n) block.length (n - block.length) =
      some (block ++ List.replicate (n - block.length) 0) := by
  have hl : (realloc fresh block n).length = n := length_realloc fresh block n
  have ht : (realloc fresh block n).take block.length = block := by
    unfold realloc
    rw [List.take_of_length_le h, List.take_left]
  unfold memset
  rw [memcpyTo_of_le (by rw [List.length_replicate, hl]; omega)]
  unfold AutoBuffer.overwrite
  rw [ht, List.length_replicate, List.drop_eq_nil_of_le (by omega), List.append_nil]

/-! ## the clamps of `Seek` -/

theorem clamp_eq (b : RawBuffer) {t : Int} (hl : b.length_ < 2 ^ 63) (ht : t < 2 ^ 63) :
    b.clamp t = (min t.toNat b.length_ : Nat) := by
  have h00 : toSize 0 = 0 := rfl
  unfold clamp
  dsimp only
  by_cases h0 : t < 0
  · simp only [h0, if_true, h00]
    rw [if_neg (Nat.not_lt_zero _)]
    omega
  · have hs := toSize_of_lt (Int.not_lt.mp h0) ht
    simp only [h0, if_false]
    rw [toOff_of_lt (Int.natCast_nonneg _) (by omega)]
    split <;> omega

theorem setLength_of_le (b : RawBuffer) {p n : Nat} (h : p ≤ n) (hn : n < 2 ^ 63) :
    b.setLength p n = { b with pos_ := p, length_ := n } := by
  have hc : clamp { b with length_ := n } p = p := by
    rw [clamp_eq _ hn (by omega)]
    show ((min (p : Int).toNat n : Nat) : Int) = p
    omega
  unfold setLength seek target
  rw [hc]

end RawBuffer

/-! ## typed operations -/

namespace AutoBuffer
open RawBuffer

def raw (b : AutoBuffer) : RawBuffer := ⟨b.parray_, b.pos_, b.length_, b.capacity, b.malloc_unitsize_⟩

/-- `__FitSize` -/
def fit (b : AutoBuffer) (_len : Nat) : AutoBuffer :=
  { b with
    parray_ := b.fitSize _len
    length_le := Nat.le_trans b.length_le (b.capacity_le_fitSize _len) }

/-- `Write` at a position: the cursor stays -/
def writeAt (b : AutoBuffer) (_pos : Nat) (_pbuffer : Bytes) : AutoBuffer where
  parray_ := overwrite (b.fitSize (_pos + _pbuffer.length)) _pos _pbuffer
  pos_ := b.pos_
  length_ := max (_pos + _pbuffer.length) b.length_
  malloc_unitsize_ := b.malloc_unitsize_
  unit_pos := b.unit_pos
  pos_le := Nat.le_trans b.pos_le (Nat.le_max_right _ _)
  length_le := by
    have h1 := b.le_fitSize (_pos + _pbuffer.length)
    have h2 := b.capacity_le_fitSize (_pos + _pbuffer.length)
    have h3 : b.length_ ≤ b.capacity := b.length_le
    rw [length_overwrite _ _ _ h1]
    omega

/-- the cursor put to `_pos`, or to the end where that is behind it -/
def seekTo (b : AutoBuffer) (_pos : Nat) : AutoBuffer :=
  { b with pos_ := min _pos b.length_, pos_le := Nat.min_le_right _ _ }

def reset (b : AutoBuffer) : AutoBuffer := empty b.malloc_unitsize_ b.unit_pos

def attachBlock (b : AutoBuffer) (_pbuffer : Bytes) : AutoBuffer :=
  ⟨_pbuffer, 0, _pbuffer.length, b.malloc_unitsize_, b.unit_pos, Nat.zero_le _, Nat.le_refl _⟩

def attach (b _rhs : AutoBuffer) : AutoBuffer :=
  { _rhs with malloc_unitsize_ := b.malloc_unitsize_, unit_pos := b.unit_pos }

theorem write_eq (b : AutoBuffer) (d : Bytes) :
    b.write d = (b.writeAt b.pos_ d).seekTo (b.pos_ + d.length) := by
  have h : b.pos_ + d.length = min (b.pos_ + d.length) (max (b.pos_ + d.length) b.length_) :=
    (Nat.min_eq_left (Nat.le_max_left _ _)).symm
  unfold write writeAt seekTo
  simp only [← h]

/-! ## the raw operations on a typed buffer -/

section
variable (fresh : Nat → UInt8) (b : AutoBuffer)

theorem raw_fitSize {n : Nat} (hn : n < 2 ^ 63) (hu : b.malloc_unitsize_ < 2 ^ 63) :
    b.raw.fitSize fresh n = some (b.fit n).raw := by
  have h0 := b.unit_pos
  by_cases h : n > b.capacity
  · have hadd : subSize (addSize n b.malloc_unitsize_) 1 = n + b.malloc_unitsize_ - 1 := by
      rw [addSize_of_lt (by omega), subSize_of_le (by omega) (by omega)]
    have hle : roundUp n b.malloc_unitsize_ ≤ n + b.malloc_unitsize_ - 1 := Nat.div_mul_le_self _ _
    have hge := le_roundUp n b.malloc_unitsize_ h0
    have hm : (subSize (addSize n b.malloc_unitsize_) 1 / b.malloc_unitsize_
        * b.malloc_unitsize_) % 2 ^ 64 = roundUp n b.malloc_unitsize_ := by
      rw [hadd]
      exact Nat.mod_eq_of_lt (by unfold roundUp at hle; omega)
    have hf : b.fitSize n =
        b.parray_ ++ List.replicate (roundUp n b.malloc_unitsize_ - b.capacity) 0 := if_pos h
    have hlen : (b.fit n).capacity = roundUp n b.malloc_unitsize_ := by
      show (b.fitSize n).length = _
      rw [hf, List.length_append, List.length_replicate]
      unfold capacity at *
      omega
    have hset := memset_realloc fresh b.parray_ (n := roundUp n b.malloc_unitsize_)
      (by unfold capacity at h; omega)
    unfold RawBuffer.fitSize raw
    dsimp only
    rw [if_pos h, if_neg (Nat.ne_of_gt h0), hm, subSize_of_le (by omega) (by omega)]
    show (memset _ b.parray_.length (_ - b.parray_.length)).map _ = _
    rw [hset, hlen]
    show some _ = some _
    rw [show (b.fit n).parray_ = _ from hf]
    rfl
  · have hf : b.fitSize n = b.parray_ := if_neg h
    have he : b.fit n = b := by
      unfold fit
      simp only [hf]
    unfold RawBuffer.fitSize
    rw [if_neg (show ¬ n > b.raw.capacity_ from h), he]

def base (b : AutoBuffer) : RawBuffer.TSeek → Nat
  | .ESeekStart => 0
  | .ESeekCur => b.pos_
  | .ESeekEnd => b.length_

theorem raw_seek (off : Int) (org : RawBuffer.TSeek) (hl : b.length_ < 2 ^ 63)
    (h : -2 ^ 63 ≤ off) (h' : b.base org + off < 2 ^ 63) :
    b.raw.seek off org = (b.seekTo (b.base org + off).toNat).raw := by
  have ht : b.raw.target off org = b.base org + off := by
    cases org with
    | ESeekStart => exact (Int.zero_add off).symm
    | ESeekCur => exact toOff_of_range (by show -2 ^ 63 ≤ (b.pos_ : Int) + off; omega) h'
    | ESeekEnd => exact toOff_of_range (by show -2 ^ 63 ≤ (b.length_ : Int) + off; omega) h'
  unfold RawBuffer.seek
  rw [ht, clamp_eq b.raw hl h']
  rfl

theorem raw_setLength {p n : Nat} (h : p ≤ n) (h' : n ≤ b.capacity) (hn : n < 2 ^ 63) :
    b.raw.setLength p n = (b.setLength p n h h').raw :=
  setLength_of_le b.raw h hn

theorem raw_writeAt {p : Nat} {d : Bytes} (h : p + d.length < 2 ^ 63)
    (hu : b.malloc_unitsize_ < 2 ^ 63) :
    b.raw.writeAt fresh p d = some (b.writeAt p d).raw := by
  have hp : toSize (p : Int) = p := toSize_natCast (by omega)
  have hle := b.le_fitSize (p + d.length)
  have hlen := length_overwrite (b.fitSize (p + d.length)) p d hle
  unfold RawBuffer.writeAt
  simp only [hp, addSize_of_lt (show p + d.length < 2 ^ 64 by omega), raw_fitSize fresh b h hu]
  show (memcpyTo (b.fitSize (p + d.length)) p d).map _ = _
  rw [memcpyTo_of_le hle]
  show some (RawBuffer.mk _ _ _ (b.fitSize (p + d.length)).length _) = _
  rw [← hlen]
  rfl

theorem raw_write {d : Bytes} (h : b.pos_ + d.length < 2 ^ 63) (hl : b.length_ < 2 ^ 63)
    (hu : b.malloc_unitsize_ < 2 ^ 63) : b.raw.write fresh d = some (b.write d).raw := by
  have hs := raw_seek (b.writeAt b.pos_ d) d.length .ESeekCur
    (by show max _ _ < 2 ^ 63; omega) (by omega) (by show (b.pos_ : Int) + d.length < 2 ^ 63; omega)
  have ht : (((b.writeAt b.pos_ d).base .ESeekCur : Nat) + (d.length : Int)).toNat
      = b.pos_ + d.length := by
    show ((b.pos_ : Int) + d.length).toNat = _
    omega
  unfold RawBuffer.write
  rw [show b.raw.pos_ = (b.pos_ : Int) from rfl, raw_writeAt fresh b h hu]
  show some ((b.writeAt b.pos_ d).raw.seek (toOff d.length) .ESeekCur) = _
  rw [toOff_of_lt (by omega) (by omega), hs, ht, write_eq]

theorem raw_writeSeek {d : Bytes} (org : RawBuffer.TSeek) (h : b.base org + d.length < 2 ^ 63)
    (hu : b.malloc_unitsize_ < 2 ^ 63) :
    b.raw.writeSeek fresh org d = some (b.writeAt (b.base org) d).raw := by
  cases org with
  | ESeekStart => exact raw_writeAt fresh b h hu
  | ESeekCur => exact raw_writeAt fresh b h hu
  | ESeekEnd =>
    have h' : b.length_ + d.length < 2 ^ 63 := h
    have hl : toOff (b.raw.length_ : Int) = (b.length_ : Int) :=
      toOff_of_lt (Int.natCast_nonneg _) (by show (b.length_ : Int) < 2 ^ 63; omega)
    unfold RawBuffer.writeSeek
    rw [hl]
    exact raw_writeAt fresh b h hu

theorem raw_load (n : Nat) (hl : b.length_ < 2 ^ 63) :
    load b.parray_ (toSize b.pos_) (min (subSize b.length_ (toSize b.pos_)) n) =
      some ((b.data.drop b.pos_).take n) ∧
    min (subSize b.length_ (toSize b.pos_)) n = ((b.data.drop b.pos_).take n).length := by
  have h1 := b.pos_le
  have h2 : b.length_ ≤ b.parray_.length := b.length_le
  have h3 := b.data_length
  have hp : toSize (b.pos_ : Int) = b.pos_ := toSize_natCast (by omega)
  rw [hp, subSize_of_le h1 (by omega)]
  constructor
  · rw [load_of_le (by omega)]
    unfold data
    rw [List.drop_take, List.take_take, Nat.min_comm]
  · rw [List.length_take, List.length_drop, h3, Nat.min_comm]

theorem raw_skip (n : Nat) (hl : b.length_ < 2 ^ 63) :
    b.raw.seek (toOff ((b.data.drop b.pos_).take n).length) .ESeekCur =
      (b.seekTo (b.pos_ + ((b.data.drop b.pos_).take n).length)).raw := by
  have h1 := b.pos_le
  have hlen : b.pos_ + ((b.data.drop b.pos_).take n).length ≤ b.length_ := by
    rw [List.length_take, List.length_drop, b.data_length]
    omega
  rw [toOff_of_lt (by omega) (by omega), raw_seek b _ .ESeekCur hl (by omega) (by
    show (b.pos_ : Int) + _ < 2 ^ 63
    omega)]
  rfl

theorem raw_read (n : Nat) (hl : b.length_ < 2 ^ 63) :
    b.raw.read n = some ((b.seekTo (b.pos_ + ((b.data.drop b.pos_).take n).length)).raw,
      (b.data.drop b.pos_).take n) := by
  have hr : b.raw.readAt b.raw.pos_ n = some ((b.data.drop b.pos_).take n) := (raw_load b n hl).1
  unfold RawBuffer.read
  rw [hr, ← raw_skip b n hl]
  rfl

theorem raw_allocWrite {n : Nat} (h : b.pos_ + n < 2 ^ 63) (hu : b.malloc_unitsize_ < 2 ^ 63)
    (c : Bool) : b.raw.allocWrite fresh n c =
      some (if c then (b.allocWrite n).raw else (b.fit (b.pos_ + n)).raw) := by
  have hp : toSize b.raw.pos_ = b.pos_ := toSize_natCast (by omega)
  unfold RawBuffer.allocWrite
  simp only [hp, addSize_of_lt (show b.pos_ + n < 2 ^ 64 by omega), raw_fitSize fresh b h hu]
  cases c <;> rfl

theorem raw_addCapacity {n : Nat} (h : b.capacity + n < 2 ^ 63) (hu : b.malloc_unitsize_ < 2 ^ 63) :
    b.raw.addCapacity fresh n = some (b.fit (b.capacity + n)).raw := by
  unfold RawBuffer.addCapacity
  rw [show b.raw.capacity_ = b.capacity from rfl, addSize_of_lt (by omega), raw_fitSize fresh b h hu]

theorem raw_moveUp {n : Nat} (h0 : 0 < n) (h : b.length_ + n < 2 ^ 63)
    (hu : b.malloc_unitsize_ < 2 ^ 63) : b.raw.move fresh n = some (b.moveUp n).raw := by
  have hd := b.data_length
  have hp := b.pos_le
  have hn : toSize (n : Int) = n := toSize_natCast (by omega)
  generalize hF : b.fitSize (b.length_ + n) = F
  have hle : b.length_ + n ≤ F.length := by
    rw [← hF]
    exact b.le_fitSize _
  have hpre : F.take b.length_ = b.data := by
    rw [← hF]
    exact b.take_fitSize _ _ b.length_le
  have hmove : memmove F n 0 b.length_ = some (overwrite F n b.data) := by
    unfold memmove
    rw [load_of_le (by omega), List.drop_zero, hpre]
    exact memcpyTo_of_le (by omega)
  have hset : memset (overwrite F n b.data) 0 n =
      some (List.replicate n 0 ++ b.data ++ F.drop (b.length_ + n)) := by
    have hl := length_overwrite F n b.data (by omega)
    unfold memset
    rw [memcpyTo_of_le (by rw [List.length_replicate, hl]; omega)]
    unfold overwrite
    rw [List.length_replicate, Nat.zero_add, List.take_zero, List.nil_append, List.append_assoc,
      List.drop_left' (by rw [List.length_take]; omega), hd, Nat.add_comm n, List.append_assoc]
  have hcap : (List.replicate n 0 ++ b.data ++ F.drop (b.length_ + n)).length = F.length := by
    rw [List.length_append, List.length_append, List.length_replicate, List.length_drop, hd]
    omega
  have hr : (b.moveUp n).raw = ⟨List.replicate n 0 ++ b.data ++ F.drop (b.length_ + n),
      (b.pos_ + n : Nat), b.length_ + n, F.length, b.malloc_unitsize_⟩ := by
    unfold raw moveUp capacity
    simp only [hF, hcap]
  unfold RawBuffer.move
  rw [if_pos (by omega), hn, show b.raw.length_ = b.length_ from rfl, addSize_of_lt (by omega),
    raw_fitSize fresh b h hu]
  show (memmove (b.fitSize (b.length_ + n)) n 0 b.length_).bind _ = _
  rw [hF, hmove]
  show (memset (overwrite F n b.data) 0 n).map _ = _
  rw [hset]
  show some (RawBuffer.setLength ⟨_, _, _, (b.fitSize (b.length_ + n)).length, _⟩
    (toOff ((b.pos_ : Int) + n)) (addSize b.length_ n)) = _
  rw [hF, addSize_of_lt (by omega), toOff_of_lt (by omega) (by omega), hr]
  exact congrArg some (setLength_of_le _ (p := b.pos_ + n) (by omega) h)

theorem raw_moveDown {n : Nat} (hl : b.length_ < 2 ^ 63) (h : n < 2 ^ 63) :
    b.raw.move fresh (-(n : Int)) = some (b.moveDown n).raw := by
  have hd := b.data_length
  have hp := b.pos_le
  have hc : b.length_ ≤ b.parray_.length := b.length_le
  have hn : toSize (- -(n : Int)) = n := by
    rw [Int.neg_neg]
    exact toSize_natCast (by omega)
  have hpos : toSize (b.pos_ : Int) = b.pos_ := toSize_natCast (by omega)
  have hmin : (if n > b.length_ then b.length_ else n) = min n b.length_ := by
    split <;> omega
  have hdrop : b.data.drop (min n b.length_) = b.data.drop n := by
    by_cases h1 : n ≤ b.length_
    · rw [Nat.min_eq_left h1]
    · rw [List.drop_eq_nil_of_le (by omega), List.drop_eq_nil_of_le (by omega)]
  have hmove : memmove b.parray_ 0 (min n b.length_) (b.length_ - min n b.length_) =
      some (b.data.drop n ++ b.parray_.drop (b.length_ - min n b.length_)) := by
    unfold memmove
    rw [load_of_le (by omega), ← List.drop_take]
    show memcpyTo b.parray_ 0 (b.data.drop (min n b.length_)) = _
    rw [hdrop, memcpyTo_of_le (by rw [List.length_drop]; omega)]
    unfold overwrite
    rw [List.take_zero, List.nil_append, Nat.zero_add, List.length_drop, hd]
    congr 3
    omega
  have hcur : (if min n b.length_ < b.pos_ then toOff ((b.pos_ : Int) - (min n b.length_ : Nat)) else 0)
      = ((b.pos_ - n : Nat) : Int) := by
    split
    · rw [toOff_of_lt (by omega) (by omega)]
      omega
    · omega
  have hss : subSize b.length_ (min n b.length_) = b.length_ - min n b.length_ :=
    subSize_of_le (by omega) (by omega)
  have hr : (b.moveDown n).raw = ⟨b.data.drop n ++ b.parray_.drop (b.length_ - min n b.length_),
      (b.pos_ - n : Nat), b.length_ - n, b.capacity, b.malloc_unitsize_⟩ := by
    unfold raw
    rw [moveDown_capacity]
    rfl
  have hsub : b.length_ - min n b.length_ = b.length_ - n := by omega
  unfold RawBuffer.move raw
  rw [if_neg (by omega)]
  simp only [hn, hmin, hss, hmove, hpos, hcur]
  show some (RawBuffer.setLength ⟨_, _, _, _, _⟩ _ _) = _
  rw [setLength_of_le _ (by omega) (by omega)]
  refine congrArg some (Eq.trans ?_ hr.symm)
  rw [hsub]

theorem raw_move {n : Int} (hl : b.length_ < 2 ^ 63) (h : -2 ^ 63 < n) (h' : b.length_ + n < 2 ^ 63)
    (hu : b.malloc_unitsize_ < 2 ^ 63) : b.raw.move fresh n = some (b.move n).raw := by
  by_cases h0 : 0 < n
  · have e : n = (n.toNat : Int) := by omega
    unfold move
    rw [if_pos h0, ← raw_moveUp fresh b (by omega) (by omega) hu, ← e]
  · have e : n = -((-n).toNat : Int) := by omega
    unfold move
    rw [if_neg h0, ← raw_moveDown fresh b hl (by omega), ← e]

end

end AutoBuffer
