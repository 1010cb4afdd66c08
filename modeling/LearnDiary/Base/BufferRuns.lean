import LearnDiary.Lib.Runs
import LearnDiary.Base.Buffers

/-!
# Runs of `AutoBuffer` operations (comm/autobuffer.cc)

Any number of buffers, and any operation on any of them, also with a buffer as its own argument.  A
step is `Sound` where a buffer that grows has a unit, what is written to a buffer from its own block
is neither freed nor overlapped, and a buffer read into itself is read to its end.

* `step_refines`      a sound step does on the lists what it is meant to do;
* `sound_of_refines`  and only a sound one;
* `run_refines`       a run;
* `not_run_refines`   a buffer written to itself.
-/

namespace RawBuffer
open AutoBuffer

/-! ## steps over many buffers -/

/-- where a write goes to: `Write(const void*, size_t)`, `Write(const off_t& _pos, ..)`,
`Write(TSeek _seek, ..)` -/
inductive Place where
  | cur
  | pos (_pos : Int)
  | seek (_seek : TSeek)

def Place.op (d : Bytes) : Place → Op
  | .cur => .write d
  | .pos p => .writeAt p d
  | .seek s => .writeSeek s d

/-- an operation on the buffer `i`, or one that takes another buffer `j`, or the buffer itself -/
inductive Act where
  | one (i : Nat) (op : Op)
  /-- `Attach(AutoBuffer&)` -/
  | attach (i j : Nat)
  /-- a write of memory that is a part of the block of `j` -/
  | writePart (i : Nat) (place : Place) (j off _len : Nat)
  /-- `Write(const AutoBuffer&)` -/
  | writeFrom (i j : Nat)
  /-- `Write(const off_t& _pos, const AutoBuffer&)` -/
  | writeAtFrom (i : Nat) (_pos : Int) (j : Nat)
  /-- `Read(AutoBuffer&, size_t)` -/
  | readInto (i j : Nat) (_len : Nat)

def goesTo (b : RawBuffer) : Place → Int
  | .cur => b.pos_
  | .pos p => p
  | .seek .ESeekStart => 0
  | .seek .ESeekCur => b.pos_
  | .seek .ESeekEnd => toOff b.length_

section
variable (fresh : Nat → UInt8)

/-- a write from the buffer's own block -/
def writeOwn (b : RawBuffer) (place : Place) (off n : Nat) : Option RawBuffer :=
  (b.writeAtOwn (b.goesTo place) off n).map fun b =>
    match place with
    | .cur => b.seek (toOff n) .ESeekCur
    | _ => b

/-- a write to `i` from the block of `j` -/
def part (s : Nat → RawBuffer) (i : Nat) (place : Place) (j off n : Nat) : Option RawBuffer :=
  if i = j then (s i).writeOwn place off n
  else
    (load (s j).parray_ off n).bind fun d => ((s i).exec fresh (place.op d)).map Prod.fst

def act (s : Nat → RawBuffer) : Act → Option ((Nat → RawBuffer) × Out)
  | .one i op => (exec fresh (s i) op).map fun r => (Function.update s i r.1, r.2)
  | .attach i j => some (Function.update (Function.update s i ((s i).attach (s j))) j (s j).reset, none)
  | .writePart i place j off n =>
    (part fresh s i place j off n).map fun b => (Function.update s i b, none)
  | .writeFrom i j =>
    (part fresh s i .cur j 0 (s j).length_).map fun b => (Function.update s i b, none)
  | .writeAtFrom i p j =>
    (part fresh s i (.pos p) j 0 (s j).length_).map fun b => (Function.update s i b, none)
  | .readInto i j n =>
    let readlen := min (subSize (s i).length_ (toSize (s i).pos_)) n
    (part fresh s j .cur i (toSize (s i).pos_) readlen).map fun b =>
      let s := Function.update s j b
      (Function.update s i ((s i).seek (toOff readlen) .ESeekCur), none)

def step (s : Nat → RawBuffer) (a : Act) : Option (Nat → RawBuffer) := (act fresh s a).map Prod.fst

end

/-- the assertions of a write, and its sizes -/
structure Lands (b : RawBuffer) (place : Place) (n : Nat) : Prop where
  nonneg : 0 ≤ b.goesTo place
  inside : toSize (b.goesTo place) ≤ b.length_
  small : b.goesTo place + n < 2 ^ 63

def readlen (b : RawBuffer) (n : Nat) : Nat := min (b.length_ - b.pos_.toNat) n

/-- the assertions of a step, and sizes below 2^63; what `Attach` takes is another buffer, and a part
of a block is one of its bytes in use -/
def Asks (s : Nat → RawBuffer) : Act → Prop
  | .one i op => Asserted (s i) op ∧ Small (s i) op
  | .attach i j => i ≠ j
  | .writePart i place j off n => off + n ≤ (s j).length_ ∧ Lands (s i) place n
  | .writeFrom i j => Lands (s i) .cur (s j).length_
  | .writeAtFrom i p j => Lands (s i) (.pos p) (s j).length_
  | .readInto i j n => Lands (s j) .cur ((s i).readlen n) ∧
      (i = j → (s i).pos_ + 2 * (s i).readlen n < 2 ^ 63)

/-- the buffer has a unit, or the write does not make it grow -/
def Room (b : RawBuffer) (place : Place) (n : Nat) : Prop :=
  0 < b.malloc_unitsize_ ∨ addSize (toSize (b.goesTo place)) n ≤ b.capacity_

/-- a write from the buffer's own block neither makes it grow nor overlaps what it copies -/
structure Within (b : RawBuffer) (place : Place) (off n : Nat) : Prop where
  fits : addSize (toSize (b.goesTo place)) n ≤ b.capacity_
  apart : n = 0 ∨ off + n ≤ toSize (b.goesTo place) ∨ toSize (b.goesTo place) + n ≤ off ∨
    off = toSize (b.goesTo place)

def SoundPart (s : Nat → RawBuffer) (i : Nat) (place : Place) (j off n : Nat) : Prop :=
  if i = j then Within (s i) place off n else Room (s i) place n

/-- a buffer that grows has a unit, what is written to a buffer from its own block is still there,
and a buffer that is read into itself is read to its end, or not at all -/
def Sound (s : Nat → RawBuffer) : Act → Prop
  | .one i op => Grows (s i) op
  | .attach _ _ => True
  | .writePart i place j off n => SoundPart s i place j off n
  | .writeFrom i j => SoundPart s i .cur j 0 (s j).length_
  | .writeAtFrom i p j => SoundPart s i (.pos p) j 0 (s j).length_
  | .readInto i j n =>
    if i = j then n = 0 ∨ (s i).length_ ≤ (s i).pos_ + n else Room (s j) .cur ((s i).readlen n)

def cut (t : Tape UInt8) (off n : Nat) : Bytes := (t.cells.drop off).take n

/-- the step on the lists: nothing happens to the other buffers -/
def Does (t t' : Nat → Tape UInt8) (out : Out) : Act → Prop
  | .one i op => Spec (t i) (t' i) out op ∧ ∀ k, k ≠ i → t' k = t k
  | .attach i j => (t' i).Is (t j).cells (t j).pos ∧ (t' j).Is [] 0 ∧ ∀ k, k ≠ i → k ≠ j → t' k = t k
  | .writePart i place j off n =>
    Spec (t i) (t' i) out (place.op (cut (t j) off n)) ∧ ∀ k, k ≠ i → t' k = t k
  | .writeFrom i j => (t i).Write (t j).cells (t' i) ∧ ∀ k, k ≠ i → t' k = t k
  | .writeAtFrom i p j => (t i).WriteAt p.toNat (t j).cells (t' i) ∧ ∀ k, k ≠ i → t' k = t k
  | .readInto i j n => (t i).Read n (t' i) ∧ (t j).Write ((t i).ahead n) (t' j) ∧
      ∀ k, k ≠ i → k ≠ j → t' k = t k

section
variable {s : Nat → RawBuffer} {t : Nat → Tape UInt8}

def RepsAll (s : Nat → RawBuffer) (t : Nat → Tape UInt8) : Prop := ∀ i, Reps (s i).united (t i)

theorem RepsAll.update (h : RepsAll s t) {i : Nat} {r : RawBuffer} {u : Tape UInt8}
    (hr : Reps r.united u) : RepsAll (Function.update s i r) (Function.update t i u) := by
  intro k
  by_cases hk : k = i
  · subst hk
    rw [Function.update_self, Function.update_self]
    exact hr
  · rw [Function.update_of_ne hk, Function.update_of_ne hk]
    exact h k

theorem Reps.fields {r : RawBuffer} {u : Tape UInt8} (h : Reps r.united u) :
    r.length_ = u.cells.length ∧ r.pos_ = u.pos ∧ r.length_ < 2 ^ 63 := by
  obtain ⟨b, hb, rfl, hl, -⟩ := h
  have hlen : b.length_ = r.length_ := congrArg RawBuffer.length_ hb
  have hpos : (b.pos_ : Int) = r.pos_ := congrArg RawBuffer.pos_ hb
  exact ⟨(hlen.symm.trans b.data_length.symm), hpos.symm, hlen ▸ hl⟩

theorem Reps.load {r : RawBuffer} {u : Tape UInt8} (h : Reps r.united u) {off n : Nat}
    (hle : off + n ≤ r.length_) : load r.parray_ off n = some (cut u off n) := by
  obtain ⟨b, hb, rfl, -, -⟩ := h
  have hlen : b.length_ = r.length_ := congrArg RawBuffer.length_ hb
  have harr : b.parray_ = r.parray_ := congrArg RawBuffer.parray_ hb
  have hcap := b.length_le
  rw [← harr, load_of_le (by omega)]
  show some _ = some ((b.data.drop off).take n)
  unfold data
  rw [List.drop_take, List.take_take, Nat.min_eq_left (by omega)]

section
variable {r : RawBuffer} {u : Tape UInt8} {place : Place} {d : Bytes}

theorem Lands.asserted (h : Lands r place d.length) : Asserted r (place.op d) := by
  cases place with
  | cur | pos p => exact ⟨h.nonneg, h.inside⟩
  | seek s => exact trivial

theorem Lands.sizes (hr : Reps r.united u) (h : Lands r place d.length) : Small r (place.op d) := by
  have hs := h.small
  cases place with
  | cur | pos p => exact hs
  | seek s =>
    cases s with
    | ESeekStart | ESeekCur => exact hs
    | ESeekEnd =>
      have hl := hr.fields.2.2
      have hoff : toOff (r.length_ : Int) = r.length_ := toOff_of_lt (by omega) (by omega)
      show (r.length_ : Int) + d.length < 2 ^ 63
      rw [← hoff]
      exact hs

theorem Room.grows (h : Room r place d.length) : Grows r (place.op d) := by
  cases place with
  | cur | pos p => exact h
  | seek s => cases s <;> exact h

end

theorem writeOwn_eq (fresh : Nat → UInt8) {b : RawBuffer} {place : Place} {off n : Nat} {d : Bytes}
    (hw : Within b place off n) (hd : RawBuffer.load b.parray_ off n = some d) :
    b.writeOwn place off n = (b.exec fresh (place.op d)).map Prod.fst := by
  have hlen := load_length hd
  unfold writeOwn
  rw [writeAtOwn_eq fresh hw.fits hw.apart hd]
  cases place with
  | cur =>
    show _ = ((b.write fresh d).map _).map _
    unfold write
    rw [Option.map_map, Option.map_map, ← hlen]
    rfl
  | pos p =>
    show _ = ((b.writeAt fresh p d).map _).map _
    rw [Option.map_map]
    rfl
  | seek s =>
    show _ = ((b.writeSeek fresh s d).map _).map _
    rw [Option.map_map]
    cases s <;> rfl

/-- **A write from a block** writes what stands there. -/
theorem part_refines (fresh : Nat → UInt8) (h : RepsAll s t) {i j off n : Nat} {place : Place}
    (hsrc : off + n ≤ (s j).length_) (hl : Lands (s i) place n) (hs : SoundPart s i place j off n) :
    ∃ r' u' out, part fresh s i place j off n = some r' ∧
      Spec (t i) u' out (place.op (cut (t j) off n)) ∧ Reps r'.united u' := by
  have hload := (h j).load hsrc
  have hlen : (cut (t j) off n).length = n := load_length hload
  have hroom : Room (s i) place n := by
    unfold SoundPart at hs
    split at hs
    · exact Or.inr hs.fits
    · exact hs
  have hpart : part fresh s i place j off n =
      (exec fresh (s i) (place.op (cut (t j) off n))).map Prod.fst := by
    unfold part
    unfold SoundPart at hs
    by_cases hij : i = j
    · subst hij
      rw [if_pos rfl] at hs ⊢
      exact writeOwn_eq fresh hs hload
    · rw [if_neg hij, hload]
      rfl
  rw [← hlen] at hl hroom
  obtain ⟨r', u', out, he, hsp, hr⟩ := exec_refines fresh (h i) hl.asserted (hl.sizes (h i)) hroom.grows
  exact ⟨r', u', out, by rw [hpart, he]; rfl, hsp, hr⟩

theorem put_ahead (u : Tape UInt8) (n : Nat) : Tape.put u.cells u.pos (u.ahead n) = u.cells := by
  unfold Tape.put Tape.ahead
  rw [List.length_take, List.length_drop]
  have h : u.cells.drop (u.pos + min n (u.cells.length - u.pos)) = (u.cells.drop u.pos).drop n := by
    rw [List.drop_drop]
    by_cases hn : n ≤ u.cells.length - u.pos
    · rw [Nat.min_eq_left hn]
    · rw [List.drop_eq_nil_of_le (by omega), List.drop_eq_nil_of_le (by omega)]
  rw [h, List.append_assoc, List.take_append_drop, List.take_append_drop]

theorem Reps.readlen {r : RawBuffer} {u : Tape UInt8} (h : Reps r.united u) (n : Nat) :
    min (subSize r.length_ (toSize r.pos_)) n = r.readlen n ∧ toSize r.pos_ = u.pos ∧
      u.pos + r.readlen n ≤ r.length_ ∧ cut u u.pos (r.readlen n) = u.ahead n ∧
      (u.ahead n).length = r.readlen n := by
  obtain ⟨hl, hp, hsmall⟩ := h.fields
  have hle := u.pos_le
  have hpos : toSize r.pos_ = u.pos := by
    rw [hp]
    exact toSize_natCast (by omega)
  have hlen : r.readlen n = min (u.cells.length - u.pos) n := by
    unfold RawBuffer.readlen
    rw [hp, hl]
    rfl
  have hahead : (u.ahead n).length = r.readlen n := by
    rw [hlen]
    unfold Tape.ahead
    rw [List.length_take, List.length_drop, Nat.min_comm]
  refine ⟨?_, hpos, by omega, ?_, hahead⟩
  · rw [hpos, subSize_of_le (by omega) (by omega), hlen, hl]
  · unfold cut Tape.ahead
    rw [hlen, ← List.length_drop, Nat.min_comm, ← List.take_take, List.take_length]

theorem Reps.skip {r : RawBuffer} {u : Tape UInt8} (h : Reps r.united u) {m : Nat}
    (hm : u.pos + m < 2 ^ 63) : ∃ v : Tape UInt8, Reps (r.seek (toOff m) .ESeekCur).united v ∧
      v.Is u.cells (min (u.pos + m) u.cells.length) := by
  obtain ⟨-, hp, -⟩ := h.fields
  have hoff : toOff (m : Int) = m := toOff_of_lt (by omega) (by omega)
  have hsmall : Small r (.seek m .ESeekCur) := ⟨by omega, show r.pos_ + (m : Int) < 2 ^ 63 by omega⟩
  have hassert : Asserted r (.seek m .ESeekCur) := trivial
  have hgrows : Grows r (.seek m .ESeekCur) := Or.inr (Nat.zero_le _)
  obtain ⟨r', v, out, he, hsp, hr⟩ := exec_refines (fun _ => 0) h hassert hsmall hgrows
  cases he
  rw [hoff]
  exact ⟨v, hr, hsp.1⟩

theorem write_refines (fresh : Nat → UInt8) (h : RepsAll s t) {i j off n : Nat} {place : Place}
    (hsrc : off + n ≤ (s j).length_) (hl : Lands (s i) place n) (hs : SoundPart s i place j off n) :
    ∃ (s' : Nat → RawBuffer) (t' : Nat → Tape UInt8) (out : Out),
      ((part fresh s i place j off n).map fun b => (Function.update s i b, (none : Out))) =
        some (s', none) ∧
      (Spec (t i) (t' i) out (place.op (cut (t j) off n)) ∧ ∀ k, k ≠ i → t' k = t k) ∧
      RepsAll s' t' := by
  obtain ⟨r', u', out, he, hsp, hr⟩ := part_refines fresh h hsrc hl hs
  refine ⟨Function.update s i r', Function.update t i u', out, ?_, ⟨?_, ?_⟩, h.update hr⟩
  · rw [he]
    rfl
  · rw [Function.update_self]
    exact hsp
  · intro k hk
    exact Function.update_of_ne hk _ _

theorem attach_refines (fresh : Nat → UInt8) (h : RepsAll s t) {i j : Nat} (hij : i ≠ j) :
    ∃ s' t' out, act fresh s (.attach i j) = some (s', out) ∧ Does t t' out (.attach i j) ∧
      RepsAll s' t' := by
  obtain ⟨b, hb, -, -, hu⟩ := h i
  obtain ⟨c, hc, ht, hl, hv⟩ := h j
  have hattach : Reps ((s i).attach (s j)).united (t j) := by
    refine ⟨b.attach c, ?_, ht, hl, hu⟩
    show b.raw.attach c.raw = (s i).united.attach (s j).united
    rw [hb, hc]
  have hreset : Reps (s j).reset.united Tape.empty := by
    refine ⟨c.reset, ?_, rfl, Nat.two_pow_pos 63, hv⟩
    show c.raw.reset = (s j).united.reset
    rw [hc]
  refine ⟨_, Function.update (Function.update t i (t j)) j Tape.empty, none, rfl, ⟨?_, ?_, ?_⟩,
    (h.update hattach).update hreset⟩
  · rw [Function.update_of_ne hij, Function.update_self]
    exact ⟨rfl, rfl⟩
  · rw [Function.update_self]
    exact ⟨rfl, rfl⟩
  · intro k hi hj
    rw [Function.update_of_ne hj, Function.update_of_ne hi]

theorem readInto_refines (fresh : Nat → UInt8) (h : RepsAll s t) {i j n : Nat}
    (ha : Asks s (.readInto i j n)) (hs : Sound s (.readInto i j n)) :
    ∃ s' t' out, act fresh s (.readInto i j n) = some (s', out) ∧
      Does t t' out (.readInto i j n) ∧ RepsAll s' t' := by
  obtain ⟨hmin, hpos, hin, hcut, hahead⟩ := (h i).readlen n
  obtain ⟨hlen, hcur, hsmall⟩ := (h i).fields
  have hpart : SoundPart s j .cur i (t i).pos ((s i).readlen n) := by
    unfold SoundPart
    by_cases hij : j = i
    · subst hij
      have hcap := (h j).ordered_united.length_le
      have hgo : toSize ((s j).goesTo .cur) = (t j).pos := hpos
      rw [if_pos rfl]
      refine ⟨?_, Or.inr (Or.inr (Or.inr hgo.symm))⟩
      rw [hgo, addSize_of_lt (by omega)]
      omega
    · rw [if_neg hij]
      have hs : if i = j then _ else Room (s j) .cur ((s i).readlen n) := hs
      rwa [if_neg (Ne.symm hij)] at hs
  obtain ⟨r', u', out, he, hsp, hr⟩ := part_refines fresh h hin ha.1 hpart
  rw [hcut] at hsp
  have he : act fresh s (.readInto i j n) = some (Function.update (Function.update s j r') i
      ((Function.update s j r' i).seek (toOff ((s i).readlen n : Nat)) .ESeekCur), none) := by
    unfold act
    dsimp only
    rw [hmin, hpos, he]
    rfl
  have hw : (t j).Write ((t i).ahead n) u' := hsp.1
  by_cases hij : i = j
  · subst hij
    have hend : n = 0 ∨ (s i).length_ ≤ (s i).pos_ + n := by
      have hs : if i = i then n = 0 ∨ (s i).length_ ≤ (s i).pos_ + n else _ := hs
      rwa [if_pos rfl] at hs
    have hu : u'.Is (t i).cells ((t i).pos + (s i).readlen n) := by
      unfold Tape.Write at hw
      rwa [put_ahead, hahead] at hw
    obtain ⟨v, hv, hvis⟩ := hr.skip (m := (s i).readlen n) (by
      have h2 := ha.2 rfl
      rw [hu.2]
      omega)
    rw [Function.update_self, Function.update_idem] at he
    -- the second move stays at the end, or is none
    have hstay : min ((t i).pos + (s i).readlen n + (s i).readlen n) (t i).cells.length =
        (t i).pos + (s i).readlen n := by
      have h1 : (s i).readlen n = min ((s i).length_ - (s i).pos_.toNat) n := rfl
      have h2 := (t i).pos_le
      rcases hend with hend | hend
      · omega
      · omega
    rw [hu.1, hu.2, hstay] at hvis
    refine ⟨_, Function.update t i v, none, he, ⟨?_, ?_, ?_⟩, h.update hv⟩
    · rw [Function.update_self]
      unfold Tape.Read
      rw [hahead]
      exact hvis
    · rw [Function.update_self]
      unfold Tape.Write
      rw [put_ahead, hahead]
      exact hvis
    · intro k hk _
      exact Function.update_of_ne hk _ _
  · obtain ⟨v, hv, hvis⟩ := (h i).skip (m := (s i).readlen n) (by omega)
    rw [Function.update_of_ne hij] at he
    rw [Nat.min_eq_left (by omega)] at hvis
    refine ⟨_, Function.update (Function.update t j u') i v, none, he, ⟨?_, ?_, ?_⟩,
      (h.update hr).update hv⟩
    · rw [Function.update_self]
      unfold Tape.Read
      rw [hahead]
      exact hvis
    · rw [Function.update_of_ne (Ne.symm hij), Function.update_self]
      exact hw
    · intro k hk hk'
      rw [Function.update_of_ne hk, Function.update_of_ne hk']

theorem cut_all (h : RepsAll s t) (j : Nat) : cut (t j) 0 (s j).length_ = (t j).cells := by
  unfold cut
  rw [(h j).fields.1, List.drop_zero, List.take_length]

/-- **The step lemma.**  A step has an outcome, and the lists change as the step is meant to change
them. -/
theorem step_refines (fresh : Nat → UInt8) (h : RepsAll s t) (a : Act) (ha : Asks s a)
    (hs : Sound s a) :
    ∃ s' t' out, act fresh s a = some (s', out) ∧ Does t t' out a ∧ RepsAll s' t' := by
  cases a with
  | one i op =>
    obtain ⟨r', u', out, he, hsp, hr⟩ := exec_refines fresh (h i) ha.1 ha.2 hs
    refine ⟨Function.update s i r', Function.update t i u', out, ?_, ⟨?_, ?_⟩, h.update hr⟩
    · show (exec fresh (s i) op).map _ = _
      rw [he]
      rfl
    · rw [Function.update_self]
      exact hsp
    · intro k hk
      exact Function.update_of_ne hk _ _
  | attach i j => exact attach_refines fresh h ha
  | writePart i place j off n =>
    obtain ⟨s', t', out, he, ⟨hsp, hrest⟩, hr⟩ := write_refines fresh h ha.1 ha.2 hs
    have hout : out = none := by
      cases place with
      | cur | pos p | seek _ => exact hsp.2
    subst hout
    exact ⟨s', t', none, he, ⟨hsp, hrest⟩, hr⟩
  | writeFrom i j =>
    obtain ⟨s', t', out, he, ⟨hsp, hrest⟩, hr⟩ :=
      write_refines fresh h (Nat.le_of_eq (Nat.zero_add _)) ha hs
    rw [cut_all h] at hsp
    exact ⟨s', t', none, he, ⟨hsp.1, hrest⟩, hr⟩
  | writeAtFrom i p j =>
    obtain ⟨s', t', out, he, ⟨hsp, hrest⟩, hr⟩ :=
      write_refines fresh h (Nat.le_of_eq (Nat.zero_add _)) ha hs
    rw [cut_all h] at hsp
    exact ⟨s', t', none, he, ⟨hsp.1, hrest⟩, hr⟩
  | readInto i j n => exact readInto_refines fresh h ha hs

end

/-! ## steps that are not sound -/

/-- a buffer without a unit does not grow -/
theorem exec_stuck (fresh : Nat → UInt8) {b : RawBuffer} {op : Op} (h0 : b.malloc_unitsize_ = 0)
    (h : b.capacity_ < b.need op) : b.exec fresh op = none := by
  have hfit : ∀ {n : Nat}, b.capacity_ < n → b.fitSize fresh n = none := by
    intro n hn
    unfold fitSize
    rw [if_pos hn, if_pos h0]
  have hwrite : ∀ {p : Int} {d : Bytes}, b.capacity_ < addSize (toSize p) d.length →
      b.writeAt fresh p d = none := by
    intro p d hn
    unfold writeAt
    dsimp only
    rw [hfit hn]
    rfl
  cases op with
  | write d =>
    show (b.write fresh d).map _ = none
    unfold write
    rw [hwrite h]
    rfl
  | writeAt p d => exact congrArg (Option.map _) (hwrite h)
  | writeSeek s d =>
    cases s with
    | ESeekStart | ESeekCur | ESeekEnd => exact congrArg (Option.map _) (hwrite h)
  | move n =>
    show (b.move fresh n).map _ = none
    have h : b.capacity_ < if 0 < n then addSize b.length_ (toSize n) else 0 := h
    unfold move
    by_cases h1 : 0 < n
    · rw [if_pos h1] at h ⊢
      rw [hfit h]
      rfl
    · rw [if_neg h1] at h
      exact absurd h (Nat.not_lt_zero _)
  | allocWrite n c =>
    show (b.allocWrite fresh n c).map _ = none
    have h : b.capacity_ < addSize (toSize b.pos_) n := h
    unfold allocWrite
    dsimp only
    rw [hfit h]
    rfl
  | addCapacity n =>
    show (b.addCapacity fresh n).map _ = none
    have h : b.capacity_ < addSize b.capacity_ n := h
    unfold addCapacity
    rw [hfit h]
    rfl
  | read | seek | length | attachBlock | detach | reset => exact absurd h (Nat.not_lt_zero _)

theorem sound_of_exec (fresh : Nat → UInt8) {b : RawBuffer} {op : Op} {x : RawBuffer × Out}
    (h : b.exec fresh op = some x) : Grows b op := by
  by_contra hg
  have hg := not_or.mp hg
  rw [exec_stuck fresh (by omega) (by omega)] at h
  cases h

/-- a write from a block that has an outcome is sound -/
theorem sound_of_part (fresh : Nat → UInt8) {s : Nat → RawBuffer} {i j off n : Nat} {place : Place}
    {b : RawBuffer} (h : part fresh s i place j off n = some b) : SoundPart s i place j off n := by
  unfold part at h
  unfold SoundPart
  split at h
  · rename_i hij
    rw [if_pos hij]
    obtain ⟨b', h, -⟩ := Option.map_eq_some_iff.mp h
    unfold writeAtOwn at h
    obtain ⟨hcap, h⟩ := Option.ite_none_left_eq_some.mp h
    obtain ⟨p, h, -⟩ := Option.map_eq_some_iff.mp h
    exact ⟨Nat.not_lt.mp hcap, (Option.ite_none_right_eq_some.mp h).1⟩
  · rename_i hij
    rw [if_neg hij]
    obtain ⟨d, hd, h⟩ := Option.bind_eq_some_iff.mp h
    obtain ⟨x, h, -⟩ := Option.map_eq_some_iff.mp h
    have hg := sound_of_exec fresh h
    rw [← load_length hd]
    cases place with
    | cur | pos p => exact hg
    | seek s => cases s <;> exact hg

section
variable {s : Nat → RawBuffer} {t : Nat → Tape UInt8}

/-- **A step that does what it is meant to do is sound.** -/
theorem sound_of_refines (fresh : Nat → UInt8) (h : RepsAll s t) {a : Act} (ha : Asks s a)
    {s' : Nat → RawBuffer} {t' : Nat → Tape UInt8} {out : Out}
    (he : act fresh s a = some (s', out)) (hd : Does t t' out a) (h' : RepsAll s' t') :
    Sound s a := by
  cases a with
  | one i op =>
    obtain ⟨x, hx, -⟩ := Option.map_eq_some_iff.mp he
    exact sound_of_exec fresh hx
  | attach i j => exact trivial
  | writePart i place j off n =>
    obtain ⟨x, hx, -⟩ := Option.map_eq_some_iff.mp he
    exact sound_of_part fresh hx
  | writeFrom i j =>
    obtain ⟨x, hx, -⟩ := Option.map_eq_some_iff.mp he
    exact sound_of_part fresh hx
  | writeAtFrom i p j =>
    obtain ⟨x, hx, -⟩ := Option.map_eq_some_iff.mp he
    exact sound_of_part fresh hx
  | readInto i j n =>
    obtain ⟨hmin, hpos, hin, hcut, hahead⟩ := (h i).readlen n
    obtain ⟨hlen, hcur, -⟩ := (h i).fields
    obtain ⟨x, hx, hs'⟩ := Option.map_eq_some_iff.mp he
    rw [hmin, hpos] at hx
    have hp := sound_of_part fresh hx
    show if i = j then _ else _
    split
    · rename_i hij
      subst hij
      obtain ⟨u', hu, hr⟩ : ∃ u' : Tape UInt8, u'.Is (t i).cells ((t i).pos + (s i).readlen n) ∧
          Reps x.united u' := by
        obtain ⟨r', u', o, hx', hsp, hr⟩ := part_refines fresh h hin ha.1 hp
        rw [hx] at hx'
        cases hx'
        have hw : (t i).Write (cut (t i) (t i).pos ((s i).readlen n)) u' := hsp.1
        unfold Tape.Write at hw
        rw [hcut, put_ahead, hahead] at hw
        exact ⟨u', hw, hr⟩
      obtain ⟨v, hv, hvis⟩ := hr.skip (m := (s i).readlen n) (by
        have h2 := ha.2 rfl
        rw [hu.2]
        omega)
      -- the cursor of the code beside the cursor it is meant to have
      have hsi : s' i = x.seek (toOff ((s i).readlen n : Nat)) .ESeekCur := by
        have hs' : _ = s' := congrArg Prod.fst hs'
        rw [← hs', hmin]
        show Function.update _ i _ i = _
        rw [Function.update_self, Function.update_self]
      have hcode := hv.fields.2.1
      have hmeant := (h' i).fields.2.1
      have hread : (t i).Read n (t' i) := hd.1
      rw [hsi, hcode, hread.2, hvis.2, hu.1, hu.2, hahead] at hmeant
      have h1 : (s i).readlen n = min ((s i).length_ - (s i).pos_.toNat) n := rfl
      have h2 := (t i).pos_le
      omega
    · rename_i hij
      unfold SoundPart at hp
      rwa [if_neg (Ne.symm hij)] at hp

end

/-! ## runs -/

def Next (t t' : Nat → Tape UInt8) : Prop := ∃ a out, Does t t' out a

/-- **`AutoBuffer` refines a byte list with a cursor.**  Along every run of sound steps from new
buffers the counters are in order, the lists of the buffers make a run of their own, and the next
step has an outcome, the one it is meant to have, exactly where it is sound. -/
theorem run_refines (fresh : Nat → UInt8) (unit : Nat → Nat) (hunit : ∀ i, unit i < 2 ^ 63)
    (s : Nat → RawBuffer)
    (hrun : Runs.Run (step fresh) (fun s a => Asks s a ∧ Sound s a) (fun i => .new (unit i)) s) :
    ∃ t, Relation.ReflTransGen Next (fun _ => Tape.empty) t ∧ RepsAll s t ∧
      (∀ i, (s i).Ordered) ∧
      ∀ a, Asks s a → (Sound s a ↔ ∃ s' t' out, act fresh s a = some (s', out) ∧
        Does t t' out a ∧ RepsAll s' t' ∧ ∀ i, (s' i).Ordered) := by
  have hreach : ∃ t, Relation.ReflTransGen Next (fun _ => Tape.empty) t ∧ RepsAll s t := by
    refine hrun.keep (P := fun s => ∃ t, Relation.ReflTransGen Next (fun _ => Tape.empty) t ∧
      RepsAll s t) ?_ ?_
    · rintro s a s' ⟨t, ht, hst⟩ ⟨ha, hsound⟩ hs
      obtain ⟨s'', t', out, he, hdoes, hst'⟩ := step_refines fresh hst a ha hsound
      obtain ⟨r, hr, rfl⟩ := Option.map_eq_some_iff.mp hs
      rw [he] at hr
      cases hr
      exact ⟨t', ht.tail ⟨a, out, hdoes⟩, hst'⟩
    · refine ⟨fun _ => Tape.empty, Relation.ReflTransGen.refl, fun i => ?_⟩
      have hi := hunit i
      exact Reps.new (n := max (unit i) 1) (by omega) (by omega)
  obtain ⟨t, ht, hst⟩ := hreach
  refine ⟨t, ht, hst, fun i => (hst i).ordered_united, ?_⟩
  intro a ha
  constructor
  · intro hsound
    obtain ⟨s', t', out, he, hdoes, hst'⟩ := step_refines fresh hst a ha hsound
    exact ⟨s', t', out, he, hdoes, hst', fun i => (hst' i).ordered_united⟩
  · rintro ⟨s', t', out, he, hdoes, hst', -⟩
    exact sound_of_refines fresh hst ha he hdoes hst'

def attached : Nat → RawBuffer := Function.update (fun _ => new 128) 0 ((new 128).attachBlock [1, 2])

theorem run_refines_attach :
    ∃ t, Relation.ReflTransGen Next (fun _ => Tape.empty) t ∧ RepsAll attached t ∧
      (∀ i, (attached i).Ordered) ∧
      ∀ a, Asks attached a → (Sound attached a ↔
        ∃ s' t' out, act (fun _ => 7) attached a = some (s', out) ∧ Does t t' out a ∧
          RepsAll s' t' ∧ ∀ i, (s' i).Ordered) :=
  run_refines (fun _ => 7) (fun _ => 128) (fun _ => by decide) _
    (Runs.Run.one (a := .one 0 (.attachBlock [1, 2]))
      ⟨⟨trivial, show 2 < 2 ^ 63 by decide⟩, Or.inl (by decide)⟩ rfl)

def threeBytes : Nat → RawBuffer := Function.update (fun _ => new 4) 0 ⟨[1, 2, 3, 0], 3, 3, 4, 4⟩

/-- **A buffer written to itself** is grown first: what is copied has been freed. -/
theorem not_run_refines : ¬ ∀ (fresh : Nat → UInt8) (unit : Nat → Nat), (∀ i, unit i < 2 ^ 63) →
    ∀ s, Runs.Run (step fresh) Asks (fun i => .new (unit i)) s →
      ∃ t, RepsAll s t ∧ ∀ a, Asks s a → ∃ s' t' out, act fresh s a = some (s', out) ∧
        Does t t' out a ∧ RepsAll s' t' := by
  intro hall
  have hrun : Runs.Run (step fun _ => 0) Asks (fun _ => .new 4) threeBytes :=
    Runs.Run.one (a := .one 0 (.write [1, 2, 3])) ⟨⟨by decide, by decide⟩, show (0 : Int) + 3 < 2 ^ 63 by decide⟩ rfl
  obtain ⟨t, -, hnext⟩ := hall (fun _ => 0) (fun _ => 4) (fun _ => by decide) threeBytes hrun
  obtain ⟨s', t', out, he, -⟩ := hnext (.writeFrom 0 0) ⟨by decide, by decide, by decide⟩
  rw [show act (fun _ => 0) threeBytes (.writeFrom 0 0) = none from rfl] at he
  cases he

end RawBuffer
