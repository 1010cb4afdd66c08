import LearnDiary.Lib.Reads
import LearnDiary.Lib.Runs
import LearnDiary.Packer.Simple

/-!
# `PtrBuffer` (comm/ptrbuffer.cc)

A cursor over memory that is not owned.  `off_t` is a signed and `size_t` an unsigned 64-bit number;
the comparisons of `Seek`, `Write` and `Read` take the low 32 bits of the cursor first.  What is
copied into the memory and out of it is the effect of an operation.

* `Ok`           the order of cursor, length and capacity;
* `seek_ok`      what keeps the cursor in order;
* `step_fits`    what one operation in range does.
-/

namespace Pack
open Reads Runs

namespace PtrBuffer

/-! ## operations -/

/-- `PtrBuffer(_ptr, _len, _maxlen)` -/
def new (_ptr _len _maxlen : Nat) : PtrBuffer := ⟨some _ptr, 0, _len, _maxlen⟩

inductive TSeek where
  | kSeekStart
  | kSeekCur
  | kSeekEnd
deriving DecidableEq

/-- the cursor `Seek` computes before it is clamped -/
def target (b : PtrBuffer) (_nOffset : Int) : TSeek → Int
  | .kSeekStart => _nOffset
  | .kSeekCur => toOff (b.pos_ + _nOffset)
  | .kSeekEnd => toOff (b.length_ + _nOffset)

def clamp (b : PtrBuffer) (pos : Int) : Int :=
  let pos := if pos < 0 then 0 else pos
  if low32 pos > b.length_ then toOff b.length_ else pos

def seek (b : PtrBuffer) (_nOffset : Int) (_eOrigin : TSeek) : PtrBuffer :=
  { b with pos_ := b.clamp (b.target _nOffset _eOrigin) }

/-- a buffer, what was copied into its memory and where, and the range copied out of it -/
structure Effect where
  buf : PtrBuffer
  wrote : Option (Int × Bytes)
  got : Option (Int × Nat)

/-- `min(_nLen, max_length_ - _nPos)` -/
def copylen (b : PtrBuffer) (_nLen : Nat) (_nPos : Int) : Nat :=
  min _nLen (subSize b.max_length_ (toSize _nPos))

/-- `Write(_pBuffer, _nLen, _nPos)` -/
def writeAt (b : PtrBuffer) (_pBuffer : Nat → UInt8) (_nLen : Nat) (_nPos : Int) : Effect where
  buf := { b with
    length_ := max b.length_ ((b.copylen _nLen _nPos + toSize _nPos) % 2 ^ 64) }
  wrote := some (_nPos, cells _pBuffer 0 (b.copylen _nLen _nPos))
  got := none

/-- `Write(_pBuffer, _nLen)` -/
def write (b : PtrBuffer) (_pBuffer : Nat → UInt8) (_nLen : Nat) : Effect :=
  let e := b.writeAt _pBuffer _nLen b.pos_
  { e with buf := e.buf.seek (toOff _nLen) .kSeekCur }

/-- `Read(_pBuffer, _nLen, _nPos)`: the bytes are those at the cursor -/
def readAt (b : PtrBuffer) (_nLen : Nat) (_nPos : Int) : Effect where
  buf := b
  wrote := none
  got := some (b.pos_, min (subSize b.length_ (toSize _nPos)) _nLen)

/-- `Read(_pBuffer, _nLen)` -/
def read (b : PtrBuffer) (_nLen : Nat) : Effect :=
  let nRead := min (subSize b.length_ (toSize b.pos_)) _nLen
  { b.readAt _nLen b.pos_ with buf := b.seek (toOff nRead) .kSeekCur }

/-- `Length(_nPos, _nLenght)` -/
def setLength (b : PtrBuffer) (_nPos : Int) (_nLenght : Nat) : PtrBuffer :=
  { b with length_ := if b.max_length_ < _nLenght then b.max_length_ else _nLenght }.seek _nPos
    .kSeekStart

/-- `Attach(_pBuffer, _nLen, _maxlen)` -/
def attachMax (b : PtrBuffer) (_pBuffer _nLen _maxlen : Nat) : PtrBuffer :=
  { b.reset with parray_ := some _pBuffer, length_ := _nLen, max_length_ := _maxlen }

inductive Op where
  | write (_pBuffer : Nat → UInt8) (_nLen : Nat)
  | writeAt (_pBuffer : Nat → UInt8) (_nLen : Nat) (_nPos : Int)
  | read (_nLen : Nat)
  | readAt (_nLen : Nat) (_nPos : Int)
  | seek (_nOffset : Int) (_eOrigin : TSeek)
  | length (_nPos : Int) (_nLenght : Nat)
  | attach (_pBuffer _nLen _maxlen : Nat)
  | reset

def apply (b : PtrBuffer) : Op → Effect
  | .write p n => b.write p n
  | .writeAt p n at' => b.writeAt p n at'
  | .read n => b.read n
  | .readAt n at' => b.readAt n at'
  | .seek off org => ⟨b.seek off org, none, none⟩
  | .length at' n => ⟨b.setLength at' n, none, none⟩
  | .attach p n m => ⟨b.attachMax p n m, none, none⟩
  | .reset => ⟨b.reset, none, none⟩

def Asserted (b : PtrBuffer) : Op → Prop
  | .write _ _ => 0 ≤ b.pos_ ∧ low32 b.pos_ ≤ b.length_
  | .writeAt _ _ at' => 0 ≤ at' ∧ low32 at' ≤ b.length_
  | .read _ => 0 ≤ b.pos_ ∧ low32 b.pos_ < b.length_
  | .readAt _ at' => 0 ≤ at' ∧ low32 at' < b.length_
  | .length at' n => 0 ≤ at' ∧ at' ≤ n ∧ n ≤ b.max_length_
  | _ => True

/-! ## the order of cursor, length and capacity -/

/-- `0 <= Pos <= Length <= MaxLength`, and the capacity is an `off_t` -/
structure Ok (b : PtrBuffer) : Prop where
  pos_nonneg : 0 ≤ b.pos_
  pos_le : b.pos_ ≤ b.length_
  length_le : b.length_ ≤ b.max_length_
  max_lt : b.max_length_ < 2 ^ 63

/-- what the operations need beyond their assertions.  A cursor behind the length is clamped if its
low 32 bits are behind it too. -/
def InRange (b : PtrBuffer) : Op → Prop
  | .write _ n => b.pos_ + n ≤ b.max_length_ ∨
      (b.pos_ + n < 2 ^ 63 ∧ b.max_length_ < low32 (b.pos_ + n))
  | .writeAt _ _ at' => at' ≤ b.max_length_
  | .seek off org => (b.target off org ≤ b.length_ ∨ b.length_ < low32 (b.target off org)) ∧
      (org = .kSeekCur → b.pos_ + off < 2 ^ 63)
  | .attach _ n m => n ≤ m ∧ m < 2 ^ 63
  | _ => True

section
variable {b : PtrBuffer}

theorem clamp_of_neg {t : Int} (h : t < 0) : b.clamp t = 0 := by
  have h1 : low32 0 = 0 := rfl
  unfold clamp
  simp only [h, if_true, h1]
  exact if_neg (Nat.not_lt_zero _)

theorem clamp_of_le {t : Int} (h0 : 0 ≤ t) (h : t ≤ b.length_) : b.clamp t = t := by
  have h1 := low32_le h0
  have h2 : ¬ t < 0 := by omega
  unfold clamp
  simp only [h2, if_false]
  exact if_neg (by omega)

theorem clamp_of_low {t : Int} (h0 : 0 ≤ t) (hl : b.length_ < 2 ^ 63) (h : b.length_ < low32 t) :
    b.clamp t = b.length_ := by
  have h2 : ¬ t < 0 := by omega
  unfold clamp
  simp only [h2, if_false]
  rw [if_pos h, toOff_of_lt (by omega) (by omega)]

/-- the cursor stays in order where the clamp sees that it is behind the length -/
theorem seek_ok {t : Int} (hl : b.length_ < 2 ^ 63) (h : t ≤ b.length_ ∨ b.length_ < low32 t) :
    0 ≤ b.clamp t ∧ b.clamp t ≤ b.length_ := by
  by_cases h0 : t < 0
  · rw [clamp_of_neg h0]
    exact ⟨Int.le_refl 0, Int.natCast_nonneg _⟩
  · rcases h with h | h
    · rw [clamp_of_le (by omega) h]
      exact ⟨by omega, h⟩
    · rw [clamp_of_low (by omega) hl h]
      exact ⟨Int.natCast_nonneg _, Int.le_refl _⟩

end

section
variable {b : PtrBuffer} (hb : b.Ok)

include hb

theorem copylen_eq {at' : Int} (h0 : 0 ≤ at') (h : at' ≤ b.max_length_) (n : Nat) :
    b.copylen n at' = min n (b.max_length_ - at').toNat := by
  have h1 := hb.max_lt
  have h2 := toSize_of_lt h0 (by omega)
  unfold copylen
  rw [subSize_of_le (by omega) (by omega)]
  omega

theorem writeAt_eq {at' : Int} (h0 : 0 ≤ at') (h : at' ≤ b.max_length_) (p : Nat → UInt8) (n : Nat) :
    b.writeAt p n at' =
      ⟨{ b with length_ := max b.length_ (at'.toNat + min n (b.max_length_ - at').toNat) },
        some (at', cells p 0 (min n (b.max_length_ - at').toNat)), none⟩ := by
  have h1 := hb.max_lt
  have h2 := toSize_of_lt h0 (by omega)
  have hc := copylen_eq hb h0 h n
  have e : (min n (b.max_length_ - at').toNat + toSize at') % 2 ^ 64
      = at'.toNat + min n (b.max_length_ - at').toNat := by
    rw [Nat.mod_eq_of_lt (by omega)]
    omega
  unfold writeAt
  rw [hc, e]

theorem writeAt_ok {at' : Int} (h0 : 0 ≤ at') (h : at' ≤ b.max_length_) (p : Nat → UInt8) (n : Nat) :
    (b.writeAt p n at').buf.Ok := by
  have h1 := hb.pos_le
  have h2 := hb.length_le
  rw [writeAt_eq hb h0 h]
  refine ⟨hb.pos_nonneg, ?_, ?_, hb.max_lt⟩
  · show b.pos_ ≤ ((max b.length_ _ : Nat) : Int)
    omega
  · show max b.length_ _ ≤ b.max_length_
    omega

/-- the cursor after a write in range stands behind the bytes that fitted -/
theorem write_cursor (p : Nat → UInt8) {n : Nat} (hn : InRange b (.write p n)) :
    (b.write p n).buf.pos_ = b.pos_ + min n (b.max_length_ - b.pos_).toNat := by
  have h0 := hb.pos_nonneg
  have h1 := hb.pos_le
  have h2 := hb.length_le
  have h3 := hb.max_lt
  have hw := writeAt_eq hb h0 (by omega) p n
  unfold write
  rw [hw]
  show clamp _ (toOff (b.pos_ + toOff n)) = _
  rcases hn with hn | ⟨hn, hlow⟩
  · rw [toOff_of_lt (n := (n : Int)) (by omega) (by omega), toOff_of_lt (by omega) (by omega),
      clamp_of_le (by omega)]
    · omega
    · show b.pos_ + n ≤ ((max b.length_ (b.pos_.toNat + _) : Nat) : Int)
      omega
  · have h4 := low32_le (n := b.pos_ + n) (by omega)
    have hlen : max b.length_ (b.pos_.toNat + min n (b.max_length_ - b.pos_).toNat)
        = b.max_length_ := by omega
    rw [toOff_of_lt (n := (n : Int)) (by omega) (by omega), toOff_of_lt (by omega) (by omega), hlen,
      clamp_of_low (by omega)]
    · show (b.max_length_ : Int) = _
      omega
    · exact h3
    · exact hlow

theorem read_cursor (n : Nat) : (b.read n).buf.pos_ = b.pos_ + min (b.length_ - b.pos_).toNat n ∧
    (b.read n).got = some (b.pos_, min (b.length_ - b.pos_).toNat n) := by
  have h0 := hb.pos_nonneg
  have h1 := hb.pos_le
  have h2 := hb.length_le
  have h3 := hb.max_lt
  have hs := toSize_of_lt h0 (by omega)
  have e : subSize b.length_ (toSize b.pos_) = (b.length_ - b.pos_).toNat := by
    rw [subSize_of_le (by omega) (by omega)]
    omega
  unfold read readAt
  rw [e]
  refine ⟨?_, rfl⟩
  show clamp b (toOff (b.pos_ + toOff _)) = _
  rw [toOff_of_lt (n := ((min (b.length_ - b.pos_).toNat n : Nat) : Int)) (by omega) (by omega),
    toOff_of_lt (by omega) (by omega), clamp_of_le (by omega) (by omega)]

end

/-! ## a step and a run -/

/-- what an operation has to do: keep the order, write inside the capacity, cut a write to what fits
and move the cursor over what was written or read -/
structure Fits (b : PtrBuffer) (op : Op) : Prop where
  ok : (b.apply op).buf.Ok
  inside : ∀ w, (b.apply op).wrote = some w → 0 ≤ w.1 ∧ w.1 + w.2.length ≤ b.max_length_
  write : ∀ p n, op = .write p n →
    (b.apply op).wrote = some (b.pos_, cells p 0 (min n (b.max_length_ - b.pos_).toNat)) ∧
      (b.apply op).buf.pos_ = b.pos_ + min n (b.max_length_ - b.pos_).toNat
  writeAt : ∀ p n at', op = .writeAt p n at' →
    (b.apply op).wrote = some (at', cells p 0 (min n (b.max_length_ - at').toNat)) ∧
      (b.apply op).buf.pos_ = b.pos_
  read : ∀ n, op = .read n →
    (b.apply op).got = some (b.pos_, min (b.length_ - b.pos_).toNat n) ∧
      (b.apply op).buf.pos_ = b.pos_ + min (b.length_ - b.pos_).toNat n

theorem writeAt_inside {b : PtrBuffer} {at' : Int} (h0 : 0 ≤ at') (h : at' ≤ b.max_length_) (p : Nat → UInt8)
    (n : Nat) : ∀ w, some (at', cells p 0 (min n (b.max_length_ - at').toNat)) = some w →
      0 ≤ w.1 ∧ w.1 + w.2.length ≤ b.max_length_ := by
  intro w hw
  cases hw
  refine ⟨h0, ?_⟩
  show at' + (cells p 0 _).length ≤ b.max_length_
  rw [cells_length]
  omega

section
variable {b : PtrBuffer} (hb : b.Ok)

include hb

theorem step_write (p : Nat → UInt8) (n : Nat) (hr : InRange b (.write p n)) :
    Fits b (.write p n) := by
  have h0 := hb.pos_nonneg
  have h1 := hb.pos_le
  have h2 := hb.length_le
  have hc := write_cursor hb p hr
  have hw := writeAt_eq hb h0 (by omega) p n
  have hok := writeAt_ok hb h0 (by omega) p n
  have hwrote : (b.apply (.write p n)).wrote =
      some (b.pos_, cells p 0 (min n (b.max_length_ - b.pos_).toNat)) := by
    show (b.writeAt p n b.pos_).wrote = _
    rw [hw]
  have hlen : (b.write p n).buf.length_ =
      max b.length_ (b.pos_.toNat + min n (b.max_length_ - b.pos_).toNat) := by
    show (b.writeAt p n b.pos_).buf.length_ = _
    rw [hw]
  constructor
  case ok =>
    refine ⟨?_, ?_, hok.length_le, hok.max_lt⟩
    · show 0 ≤ (b.write p n).buf.pos_
      rw [hc]
      omega
    · show (b.write p n).buf.pos_ ≤ (b.write p n).buf.length_
      rw [hc, hlen]
      omega
  case inside =>
    rw [hwrote]
    exact writeAt_inside h0 (by omega) p n
  case write =>
    intro _ _ e
    cases e
    exact ⟨hwrote, hc⟩
  case writeAt =>
    intro _ _ _ e
    cases e
  case read =>
    intro _ e
    cases e

theorem step_writeAt (p : Nat → UInt8) (n : Nat) (at' : Int) (ha : Asserted b (.writeAt p n at'))
    (hr : InRange b (.writeAt p n at')) : Fits b (.writeAt p n at') := by
  have hw := writeAt_eq hb ha.1 hr p n
  have hwrote : (b.apply (.writeAt p n at')).wrote =
      some (at', cells p 0 (min n (b.max_length_ - at').toNat)) := by
    show (b.writeAt p n at').wrote = _
    rw [hw]
  constructor
  case ok => exact writeAt_ok hb ha.1 hr p n
  case inside =>
    rw [hwrote]
    exact writeAt_inside ha.1 hr p n
  case write =>
    intro _ _ e
    cases e
  case writeAt =>
    intro _ _ _ e
    cases e
    exact ⟨hwrote, rfl⟩
  case read =>
    intro _ e
    cases e

theorem step_read (n : Nat) : Fits b (.read n) := by
  have h0 := hb.pos_nonneg
  have h1 := hb.pos_le
  have hc := read_cursor hb n
  constructor
  case ok =>
    refine ⟨?_, ?_, hb.length_le, hb.max_lt⟩
    · show 0 ≤ (b.read n).buf.pos_
      rw [hc.1]
      omega
    · show (b.read n).buf.pos_ ≤ b.length_
      rw [hc.1]
      omega
  case inside =>
    intro w e
    cases e
  case write =>
    intro _ _ e
    cases e
  case writeAt =>
    intro _ _ _ e
    cases e
  case read =>
    intro _ e
    cases e
    exact ⟨hc.2, hc.1⟩

end

theorem fits_of_ok {b : PtrBuffer} {op : Op} (hok : (b.apply op).buf.Ok)
    (hwrote : (b.apply op).wrote = none) (hwrite : ∀ p n, op ≠ .write p n)
    (hwriteAt : ∀ p n at', op ≠ .writeAt p n at') (hread : ∀ n, op ≠ .read n) : Fits b op where
  ok := hok
  inside := by
    intro w e
    rw [hwrote] at e
    cases e
  write := fun p n e => absurd e (hwrite p n)
  writeAt := fun p n at' e => absurd e (hwriteAt p n at')
  read := fun n e => absurd e (hread n)

theorem step_fits {b : PtrBuffer} (hb : b.Ok) {op : Op} (ha : Asserted b op) (hr : InRange b op) :
    Fits b op := by
  have h2 := hb.length_le
  have h3 := hb.max_lt
  cases op with
  | write p n => exact step_write hb p n hr
  | writeAt p n at' => exact step_writeAt hb p n at' ha hr
  | read n => exact step_read hb n
  | readAt n at' => exact fits_of_ok hb rfl nofun nofun nofun
  | seek off org =>
    have h := seek_ok (by omega) hr.1
    exact fits_of_ok ⟨h.1, h.2, hb.length_le, hb.max_lt⟩ rfl nofun nofun nofun
  | length at' n =>
    obtain ⟨h4, h5, h6⟩ := ha
    have hn : (if b.max_length_ < n then b.max_length_ else n) = n := if_neg (by omega)
    have hs : b.setLength at' n = { b with length_ := n, pos_ := at' } := by
      have hc : clamp { b with length_ := n } at' = at' := clamp_of_le h4 h5
      unfold setLength
      rw [hn]
      show ({ b with length_ := n, pos_ := clamp { b with length_ := n } at' } : PtrBuffer) = _
      rw [hc]
    refine fits_of_ok ?_ rfl nofun nofun nofun
    show (b.setLength at' n).Ok
    rw [hs]
    exact ⟨h4, h5, h6, h3⟩
  | attach p n m =>
    refine fits_of_ok ⟨Int.le_refl 0, Int.natCast_nonneg n, hr.1, hr.2⟩ rfl nofun nofun nofun
  | reset =>
    exact fits_of_ok ⟨Int.le_refl 0, Int.le_refl 0, Nat.le_refl 0, Nat.two_pow_pos 63⟩ rfl nofun nofun nofun

def step (b : PtrBuffer) (op : Op) : Option PtrBuffer := some (b.apply op).buf

theorem new_ok {ptr len maxlen : Nat} (h : len ≤ maxlen) (h' : maxlen < 2 ^ 63) :
    (new ptr len maxlen).Ok :=
  ⟨Int.le_refl 0, Int.natCast_nonneg len, h, h'⟩

/-- **Every run in range** from a constructed buffer keeps the order, and every operation in range
does what it has to do in every state reached. -/
theorem run_fits (ptr len maxlen : Nat) (h : len ≤ maxlen) (h' : maxlen < 2 ^ 63) (b : PtrBuffer)
    (hrun : Run step (fun b op => Asserted b op ∧ InRange b op) (new ptr len maxlen) b) :
    b.Ok ∧ ∀ op, Asserted b op → InRange b op → Fits b op := by
  have hb : b.Ok := by
    refine hrun.keep ?_ (new_ok h h')
    intro s op s' hs hc hstep
    cases hstep
    exact (step_fits hs hc.1 hc.2).ok
  exact ⟨hb, fun op ha hr => step_fits hb ha hr⟩

theorem run_fits_write :
    let b := ((new 0 0 4).apply (.write (fun i => i.toUInt8) 6)).buf
    b.Ok ∧ ∀ op, Asserted b op → InRange b op → Fits b op :=
  run_fits 0 0 4 (by decide) (by decide) _ (Run.one (a := .write (fun i => i.toUInt8) 6)
    ⟨⟨by decide, by decide⟩, Or.inr ⟨by decide, by decide⟩⟩ rfl)

/-- a seek to `2 ^ 32` passes the clamp -/
theorem seek_passes : ¬ ∀ (ptr len maxlen : Nat), len ≤ maxlen → maxlen < 2 ^ 63 → ∀ b,
    Run step Asserted (new ptr len maxlen) b → b.Ok := by
  intro hall
  have h := (hall 0 4 4 (by decide) (by decide) _
    (Run.one (a := .seek (2 ^ 32) .kSeekStart) trivial rfl)).pos_le
  revert h
  decide

end PtrBuffer

end Pack
