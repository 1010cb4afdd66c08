import LearnDiary.Base.RawBuffer
import LearnDiary.Packer.PtrBuffer

/-!
# Positional reads (comm/autobuffer.cc, comm/ptrbuffer.cc)

`Read` at a position computes from it how many bytes there are, and copies them from the cursor on:
in `AutoBuffer` to memory and to another buffer, and in `PtrBuffer`.

* `Serves`            the range a read has to take its bytes from;
* `serves_iff`        when the range at the cursor does;
* `positional_iff`    the reads of both classes.
-/

/-- `Read(const off_t& _pos, AutoBuffer& _rhs, size_t _len)` into another buffer: how many bytes were
read, and that buffer -/
def RawBuffer.readTo (fresh : Nat → UInt8) (b : RawBuffer) (_pos : Int) (_rhs : RawBuffer) (_len : Nat) :
    Option (Nat × RawBuffer) :=
  (b.readAt _pos _len).bind fun d => (_rhs.write fresh d).map fun r => (d.length, r)

/-- the range that `Read` copies -/
def RawBuffer.readRange (b : RawBuffer) (_pos : Int) (_len : Nat) : Reads.Range :=
  (toSize b.pos_, min (subSize b.length_ (toSize _pos)) _len)

theorem RawBuffer.readAt_eq (b : RawBuffer) (_pos : Int) (_len : Nat) :
    b.readAt _pos _len = load b.parray_ (b.readRange _pos _len).1 (b.readRange _pos _len).2 := rfl

namespace Pack

/-- a range that gives the bytes of `data` from position `p` on, at most `n`, and no byte behind the
end -/
structure Serves (data : Bytes) (p n : Nat) (r : Reads.Range) : Prop where
  count : r.2 = min n (data.length - p)
  inside : r.1 + r.2 ≤ data.length
  bytes : (data.drop r.1).take r.2 = (data.drop p).take n

/-- nothing to read, a read at the cursor, or one of bytes that stand at the cursor too -/
def AtCursor (data : Bytes) (cursor p n : Nat) : Prop :=
  min n (data.length - p) = 0 ∨ p = cursor ∨
    cursor + min n (data.length - p) ≤ data.length ∧
      (data.drop cursor).take (min n (data.length - p)) = (data.drop p).take (min n (data.length - p))

section
variable {data : Bytes} {cursor p n : Nat}

theorem take_min (data : Bytes) (p n : Nat) :
    (data.drop p).take (min n (data.length - p)) = (data.drop p).take n := by
  rw [← List.length_drop, ← List.take_eq_take_min]

/-- **When the bytes at the cursor are those at the position.** -/
theorem serves_iff (hc : cursor ≤ data.length) (hp : p ≤ data.length) :
    Serves data p n (cursor, min n (data.length - p)) ↔ AtCursor data cursor p n := by
  constructor
  · intro h
    exact Or.inr (Or.inr ⟨h.inside, h.bytes.trans (take_min data p n).symm⟩)
  · rintro (h0 | rfl | ⟨hin, hsame⟩)
    · refine ⟨rfl, ?_, ?_⟩
      · show cursor + min n (data.length - p) ≤ data.length
        omega
      · refine Eq.trans ?_ (take_min data p n)
        rw [h0]
        rfl
    · refine ⟨rfl, ?_, take_min data p n⟩
      show p + min n (data.length - p) ≤ data.length
      omega
    · exact ⟨rfl, hin, hsame.trans (take_min data p n)⟩

/-- other bytes stand at the cursor as a rule -/
theorem atCursor_all_iff {len : Nat} (hp : p ≤ len) :
    (∀ data : Bytes, data.length = len → AtCursor data cursor p n) ↔
      n = 0 ∨ p = len ∨ p = cursor := by
  constructor
  · intro h
    by_contra hno
    obtain ⟨hn, hno⟩ := not_or.mp hno
    obtain ⟨hlen, hpc⟩ := not_or.mp hno
    -- a one at the position, and a zero everywhere else
    have hset : ((List.replicate len (0 : UInt8)).set p 1).length = len := by
      rw [List.length_set, List.length_replicate]
    rcases h _ hset with h0 | heq | ⟨hin, hsame⟩
    · rw [hset] at h0
      omega
    · exact hpc heq
    · rw [hset] at hin hsame
      have hpos : 0 < min n (len - p) := by omega
      have hhead := congrArg (fun l : Bytes => l[0]?) hsame
      simp only [List.getElem?_take_of_lt hpos, List.getElem?_drop, Nat.add_zero] at hhead
      rw [List.getElem?_set_ne hpc, List.getElem?_set_self (by rw [List.length_replicate]; omega),
        List.getElem?_replicate, if_pos (by omega)] at hhead
      exact absurd (Option.some.inj hhead) (by decide)
  · rintro (rfl | rfl | rfl) data hdata
    · exact Or.inl (Nat.zero_min _)
    · refine Or.inl ?_
      rw [hdata, Nat.sub_self, Nat.min_zero]
    · exact Or.inr (Or.inl rfl)

end

/-! ## the two classes -/

/-- what is promised of the positional reads of an `AutoBuffer`, into memory and into a buffer, and of
the sequential one -/
structure ReadsAt (b : AutoBuffer) (p n : Nat) : Prop where
  range : Serves b.data p n (b.raw.readRange p n)
  memory : b.raw.readAt p n = some ((b.data.drop p).take n)
  buffer : ∀ fresh _rhs, b.raw.readTo fresh p _rhs n =
    (_rhs.write fresh ((b.data.drop p).take n)).map fun r => (min n (b.length_ - p), r)
  sequential : (b.raw.read n).map Prod.snd = b.raw.readAt b.pos_ n

/-- and of those of a `PtrBuffer` over the memory `m` -/
structure PtrReadsAt (m : Bytes) (b : PtrBuffer) (p n : Nat) : Prop where
  range : ∃ from_ count, (b.readAt n p).got = some (from_, count) ∧ 0 ≤ from_ ∧
    Serves (b.view m) p n (from_.toNat, count)
  sequential : (b.read n).got = (b.readAt n b.pos_).got

section
variable {p n : Nat}

theorem readRange_eq {b : AutoBuffer} (hl : b.length_ < 2 ^ 63) (hp : p ≤ b.length_) :
    b.raw.readRange p n = (b.pos_, min n (b.data.length - p)) := by
  have h1 := b.pos_le
  have hpos : toSize (b.pos_ : Int) = b.pos_ := toSize_natCast (by omega)
  have hat : toSize (p : Int) = p := toSize_natCast (by omega)
  have h2 : b.raw.pos_ = (b.pos_ : Int) := rfl
  have h3 : b.raw.length_ = b.length_ := rfl
  unfold RawBuffer.readRange
  rw [h2, h3, hpos, hat, subSize_of_le hp (by omega), b.data_length, Nat.min_comm]

theorem readsAt_iff {b : AutoBuffer} (hl : b.length_ < 2 ^ 63) (hp : p ≤ b.length_) :
    ReadsAt b p n ↔ AtCursor b.data b.pos_ p n := by
  have hlen := b.data_length
  have hc := b.pos_le
  have hrange := readRange_eq (n := n) hl hp
  rw [← serves_iff (by omega) (by omega), ← hrange]
  refine ⟨fun h => h.range, fun h => ?_⟩
  have hin : b.pos_ + min n (b.data.length - p) ≤ b.length_ := by
    have := h.inside
    rw [hrange, hlen] at this
    rw [hlen]
    exact this
  have hmem : b.raw.readAt p n = some ((b.data.drop p).take n) := by
    have hbytes : (b.data.drop b.pos_).take (min n (b.data.length - p)) = (b.data.drop p).take n := by
      have := h.bytes
      rwa [hrange] at this
    have hblock : b.length_ ≤ b.parray_.length := b.length_le
    have hdata : (b.data.drop b.pos_).take (min n (b.data.length - p)) =
        (b.parray_.drop b.pos_).take (min n (b.data.length - p)) := by
      show ((b.parray_.take b.length_).drop b.pos_).take _ = _
      rw [List.drop_take, List.take_take, Nat.min_eq_left (by omega)]
    have hparray : b.raw.parray_ = b.parray_ := rfl
    rw [RawBuffer.readAt_eq, hrange, ← hbytes, hdata, hparray]
    exact RawBuffer.load_of_le (by omega)
  refine ⟨h, hmem, fun fresh rhs => ?_, ?_⟩
  · unfold RawBuffer.readTo
    rw [hmem, Option.bind_some, List.length_take, List.length_drop, hlen]
  · have hpos : b.raw.pos_ = (b.pos_ : Int) := rfl
    unfold RawBuffer.read
    rw [hpos]
    generalize b.raw.readAt b.pos_ n = r
    cases r with
    | none => rfl
    | some d => rfl

theorem ptrReadsAt_iff {m : Bytes} {b : PtrBuffer} (hb : b.Ok) (hm : (b.view m).length = b.length_)
    (hp : p ≤ b.length_) : PtrReadsAt m b p n ↔ AtCursor (b.view m) b.pos_.toNat p n := by
  have h0 := hb.pos_nonneg
  have h1 := hb.pos_le
  have h2 := hb.length_le
  have h3 := hb.max_lt
  have hgot : (b.readAt n p).got = some (b.pos_, min n ((b.view m).length - p)) := by
    show some (b.pos_, min (subSize b.length_ (toSize p)) n) = _
    rw [toSize_natCast (by omega), subSize_of_le hp (by omega), hm, Nat.min_comm]
  rw [← serves_iff (by omega) (by omega)]
  constructor
  · intro h
    obtain ⟨from_, count, hr, -, hserves⟩ := h.range
    rw [hgot] at hr
    cases hr
    exact hserves
  · exact fun h => ⟨⟨_, _, hgot, h0, h⟩, rfl⟩

end

/-- **Positional reads** of both classes fill in the bytes at the position exactly when there is nothing
to read, the position is that of the cursor, or the same bytes stand at the cursor; whatever stands
there, in the first two cases only. -/
theorem positional_iff (p n : Nat) :
    (∀ b : AutoBuffer, b.length_ < 2 ^ 63 → p ≤ b.length_ →
      (ReadsAt b p n ↔ AtCursor b.data b.pos_ p n)) ∧
    (∀ (m : Bytes) (b : PtrBuffer), b.Ok → (b.view m).length = b.length_ → p ≤ b.length_ →
      (PtrReadsAt m b p n ↔ AtCursor (b.view m) b.pos_.toNat p n)) ∧
    ∀ len cursor : Nat, p ≤ len →
      ((∀ data : Bytes, data.length = len → AtCursor data cursor p n) ↔
        n = 0 ∨ p = len ∨ p = cursor) :=
  ⟨fun _ hl hp => readsAt_iff hl hp, fun _ _ hb hm hp => ptrReadsAt_iff hb hm hp,
    fun _ _ hp => atCursor_all_iff hp⟩

def letters : AutoBuffer := (AutoBuffer.new.write (ascii "ab")).seekTo 0

theorem positional_iff_front : ReadsAt letters 0 1 ∧ PtrReadsAt (ascii "ab") (.new 0 2 2) 0 1 :=
  ⟨((positional_iff 0 1).1 letters (by decide) (by decide)).mpr (Or.inr (Or.inl rfl)),
    ((positional_iff 0 1).2.1 (ascii "ab") (.new 0 2 2) (PtrBuffer.new_ok (by decide) (by decide))
      (by decide) (by decide)).mpr (Or.inr (Or.inl rfl))⟩

/-- **A read of the second letter** gives the first one, with the cursor in front. -/
theorem reads_first : ¬ ReadsAt letters 1 1 ∧ ¬ PtrReadsAt (ascii "ab") (.new 0 2 2) 1 1 := by
  refine ⟨fun h => ?_, fun h => ?_⟩
  · exact absurd h.range.bytes (by decide)
  · obtain ⟨from_, count, hr, -, hserves⟩ := h.range
    have hgot : ((PtrBuffer.new 0 2 2).readAt 1 (1 : Nat)).got = some (0, 1) := by decide
    rw [hgot] at hr
    cases hr
    exact absurd hserves.bytes (by decide)

end Pack
