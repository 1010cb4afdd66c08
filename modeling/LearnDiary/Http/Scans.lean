import LearnDiary.Http.Machine
import LearnDiary.Lib.Runs

/-!
# What the chunk decoding looks at (comm/http.cc)

`chunkReads` are the bytes that an iteration on a chunk looks at or hands over, as ranges from
`Ptr()` on.  A `Session` is a parser under calls of both overloads; it keeps the buffers that its
chunk decoding steps worked on.

* `inside_of_clean`, `clean_of_inside`  one chunk decoding step;
* `scans_inside`         runs.
-/

namespace Http
open Loop

/-! ## the reads of a chunk decoding step -/

/-- the bytes that an iteration on a chunk looks at or hands over, from the first of a pair up to the
second -/
def chunkReads (b : AutoBuffer) (guardLen : Nat) : List (Int × Int) :=
  (0, (strnstrReads b.parray_ crlf (toInt32 b.length_) : Int)) ::
    match search b crlf with
    | .wild => []
    | .null => []
    | .found sizeLen =>
      let chunkSize := chunkSizeOf (b.parray_.take sizeLen)
      let chunkEnd := sizeLen + 2 + chunkSize
      if chunkSize ≠ 0 then
        if (b.length_ : Int) < chunkSize + sizeLen + 4 then []
        else
          (chunkEnd, chunkEnd + if byteAt b.parray_ chunkEnd = some 13 then 2 else 1) ::
            if chunkTail b.parray_ chunkEnd = some true then
              [(sizeLen + 2, sizeLen + 2 + toSizeT chunkSize)]
            else []
      else if guardLen < (sizeLen + 4) % 2 ^ 32 then []
      else
        [(sizeLen + 2,
          sizeLen + 2 + strnstrReads (b.parray_.drop (sizeLen + 2)) crlf (toInt32 b.length_))]

/-- how many bytes an iteration takes out of the buffer -/
def Chunk.consumes : Chunk → Nat
  | .append _ _ move => move
  | .last move => move
  | _ => 0

/-- a chunk decoding step stays inside the received bytes, and so does not depend on others -/
structure Inside (b : AutoBuffer) (guardLen : Nat) : Prop where
  outcome : chunkAct b guardLen ≠ .wild
  reads : ∀ r ∈ chunkReads b guardLen, r.1 < r.2 → 0 ≤ r.1 ∧ r.2 ≤ b.length_
  consumes : (chunkAct b guardLen).consumes ≤ b.length_
  same : ∀ b' : AutoBuffer, b'.data = b.data → chunkAct b' guardLen = chunkAct b guardLen

/-- a size on a line of `sizeLen` bytes: a positive one with its end in 64 bits, a negative one that
leads to a byte of the line which is not its end, or zero where the parser waits or a NUL stands
behind the line -/
def SizeFits (b : AutoBuffer) (guardLen sizeLen : Nat) (chunkSize : Int) : Prop :=
  0 < chunkSize ∧ chunkSize + sizeLen + 4 < 2 ^ 63 ∨
  chunkSize < 0 ∧ chunkSize ≠ -2 ∧ 0 ≤ chunkSize + sizeLen + 2 ∨
  chunkSize = 0 ∧ (guardLen < (sizeLen + 4) % 2 ^ 32 ∨
    sizeLen + 2 + toSizeT (toInt32 b.length_) ≤ b.length_ ∨ 0 ∈ b.data.drop (sizeLen + 2))

def LineFits (b : AutoBuffer) (guardLen : Nat) : Search → Prop
  | .found sizeLen => SizeFits b guardLen sizeLen (chunkSizeOf (b.data.take sizeLen))
  | _ => True

/-- the length is not negative as an `int`, or a NUL is among the received bytes; and the size line
fits -/
def Clean (b : AutoBuffer) (guardLen : Nat) : Prop :=
  (toSizeT (toInt32 b.length_) ≤ b.length_ ∨ 0 ∈ b.data) ∧ LineFits b guardLen (search b crlf)

instance (b : AutoBuffer) (guardLen : Nat) : (x : Search) → Decidable (LineFits b guardLen x)
  | .found _ => inferInstanceAs (Decidable (_ ∨ _ ∨ _))
  | .null => isTrue trivial
  | .wild => isTrue trivial

instance (b : AutoBuffer) (guardLen : Nat) : Decidable (Clean b guardLen) :=
  inferInstanceAs (Decidable (_ ∧ _))

section
variable {b : AutoBuffer} {guardLen sizeLen : Nat}

theorem size_reads_iff : strnstrReads b.parray_ crlf (toInt32 b.length_) ≤ b.length_ ↔
    toSizeT (toInt32 b.length_) ≤ b.length_ ∨ 0 ∈ b.data := by
  rw [strnstrReads_eq crlf_ne, strnlenReads_le_iff _ _ b.length_le]
  rfl

theorem trailer_reads_iff (hle : sizeLen + 2 ≤ b.length_) :
    sizeLen + 2 + strnstrReads (b.parray_.drop (sizeLen + 2)) crlf (toInt32 b.length_) ≤ b.length_ ↔
      sizeLen + 2 + toSizeT (toInt32 b.length_) ≤ b.length_ ∨ 0 ∈ b.data.drop (sizeLen + 2) := by
  have hblock := b.length_le
  have hdata : (b.parray_.drop (sizeLen + 2)).take (b.length_ - (sizeLen + 2)) =
      b.data.drop (sizeLen + 2) := by
    unfold AutoBuffer.data
    rw [List.drop_take]
  have h := strnlenReads_le_iff (b.parray_.drop (sizeLen + 2)) (toSizeT (toInt32 b.length_))
    (k := b.length_ - (sizeLen + 2)) (by
      rw [List.length_drop]
      omega)
  rw [hdata] at h
  rw [strnstrReads_eq crlf_ne]
  constructor
  · intro hr
    exact (h.mp (by omega)).imp (fun h => by omega) id
  · intro hr
    have := h.mpr (hr.imp (fun h => by omega) id)
    omega

theorem line_found (h : search b crlf = .found sizeLen) :
    sizeLen + 2 ≤ b.length_ ∧ b.parray_.take sizeLen = b.data.take sizeLen := by
  have hle : sizeLen + 2 ≤ b.length_ := search_found_le crlf_ne h
  exact ⟨hle, take_data b (by omega)⟩

/-- a size that is not zero, with enough bytes behind the line -/
structure Ready (b : AutoBuffer) (sizeLen : Nat) (chunkSize : Int) : Prop where
  found : search b crlf = .found sizeLen
  size : chunkSizeOf (b.data.take sizeLen) = chunkSize
  ne : chunkSize ≠ 0
  enough : chunkSize + sizeLen + 4 ≤ b.length_

theorem Ready.reads {chunkSize : Int} (h : Ready b sizeLen chunkSize) :
    chunkReads b guardLen = (0, (strnstrReads b.parray_ crlf (toInt32 b.length_) : Int)) ::
      (sizeLen + 2 + chunkSize, sizeLen + 2 + chunkSize +
        if byteAt b.parray_ (sizeLen + 2 + chunkSize) = some 13 then 2 else 1) ::
      if chunkTail b.parray_ (sizeLen + 2 + chunkSize) = some true then
        [((sizeLen : Int) + 2, (sizeLen : Int) + 2 + toSizeT chunkSize)]
      else [] := by
  unfold chunkReads
  rw [h.found]
  simp only [(line_found h.found).2, h.size]
  have henough := h.enough
  rw [if_pos h.ne, if_neg (by omega)]

theorem Ready.tail {chunkSize : Int} (h : Ready b sizeLen chunkSize)
    (h0 : 0 ≤ chunkSize + sizeLen + 2) : chunkTail b.parray_ (sizeLen + 2 + chunkSize) =
      some (decide (crlf <+: b.data.drop (sizeLen + 2 + chunkSize).toNat)) := by
  have henough := h.enough
  obtain ⟨k, hk⟩ : ∃ k : Nat, (sizeLen : Int) + 2 + chunkSize = k :=
    ⟨((sizeLen : Int) + 2 + chunkSize).toNat, by omega⟩
  rw [hk, Int.toNat_natCast]
  exact chunkTail_eq b (by omega)

/-- what the bytes at the end of a chunk lead to -/
def tailAct (sizeLen : Nat) (chunkSize : Int) : Option Bool → Chunk
  | none => .wild
  | some false => .bad
  | some true => .append (sizeLen + 2) (toSizeT chunkSize) (sizeLen + 2 + chunkSize + 2).toNat

theorem Ready.act {chunkSize : Int} (h : Ready b sizeLen chunkSize)
    (hov : chunkSize + sizeLen + 4 < 2 ^ 63) : chunkAct b guardLen =
      tailAct sizeLen chunkSize (chunkTail b.parray_ (sizeLen + 2 + chunkSize)) := by
  have henough := h.enough
  unfold chunkAct
  rw [h.found]
  simp only [(line_found h.found).2, h.size]
  rw [if_pos h.ne, if_neg (by omega), if_neg (by omega)]
  rcases chunkTail b.parray_ (sizeLen + 2 + chunkSize) with _ | _ | _ <;> rfl

/-- a last chunk whose trailer is looked for -/
structure Last (b : AutoBuffer) (guardLen sizeLen : Nat) : Prop where
  found : search b crlf = .found sizeLen
  size : chunkSizeOf (b.data.take sizeLen) = 0
  enough : ¬ guardLen < (sizeLen + 4) % 2 ^ 32

theorem Last.reads (h : Last b guardLen sizeLen) :
    chunkReads b guardLen = [(0, (strnstrReads b.parray_ crlf (toInt32 b.length_) : Int)),
      ((sizeLen : Int) + 2, (sizeLen : Int) + 2 +
        strnstrReads (b.parray_.drop (sizeLen + 2)) crlf (toInt32 b.length_))] := by
  unfold chunkReads
  rw [h.found]
  simp only [(line_found h.found).2, h.size]
  rw [if_neg (by omega), if_neg h.enough]

/-- what the search for the end of the trailer leads to -/
def trailerAct (sizeLen : Nat) : Search → Chunk
  | .wild => .wild
  | .null => .wait
  | .found trailer => .last (sizeLen + 2 + trailer + 2)

theorem Last.act (h : Last b guardLen sizeLen) : chunkAct b guardLen =
    trailerAct sizeLen (strnstr (b.parray_.drop (sizeLen + 2)) crlf (toInt32 b.length_)) := by
  have henough := h.enough
  unfold chunkAct
  rw [h.found]
  simp only [(line_found h.found).2, h.size]
  rw [if_neg (by omega), if_neg (by omega)]
  rcases strnstr (b.parray_.drop (sizeLen + 2)) crlf (toInt32 b.length_) with _ | _ | _ <;> rfl

/-- a size line behind which more bytes are waited for -/
structure Waits (b : AutoBuffer) (guardLen sizeLen : Nat) (chunkSize : Int) : Prop where
  found : search b crlf = .found sizeLen
  size : chunkSizeOf (b.data.take sizeLen) = chunkSize
  short : chunkSize = 0 ∧ guardLen < (sizeLen + 4) % 2 ^ 32 ∨
    chunkSize ≠ 0 ∧ chunkSize + sizeLen + 4 < 2 ^ 63 ∧
      (b.length_ : Int) < chunkSize + sizeLen + 4

theorem Waits.reads {chunkSize : Int} (h : Waits b guardLen sizeLen chunkSize) :
    chunkReads b guardLen = [(0, (strnstrReads b.parray_ crlf (toInt32 b.length_) : Int))] := by
  unfold chunkReads
  rw [h.found]
  simp only [(line_found h.found).2, h.size]
  rcases h.short with ⟨h0, hg⟩ | ⟨h0, -, hw⟩
  · rw [if_neg (by omega), if_pos hg]
  · rw [if_pos h0, if_pos hw]

theorem Waits.act {chunkSize : Int} (h : Waits b guardLen sizeLen chunkSize) :
    chunkAct b guardLen = .wait := by
  unfold chunkAct
  rw [h.found]
  simp only [(line_found h.found).2, h.size]
  rcases h.short with ⟨h0, hg⟩ | ⟨h0, hov, hw⟩
  · rw [if_neg (by omega), if_pos (by omega)]
  · rw [if_pos h0, if_neg (by omega), if_pos hw]

/-- the step waits behind the size line, or has a chunk, or the last one, or overflows -/
theorem chunk_cases (h : search b crlf = .found sizeLen) (guardLen : Nat) {chunkSize : Int}
    (hsize : chunkSizeOf (b.data.take sizeLen) = chunkSize) :
    Waits b guardLen sizeLen chunkSize ∨
    Ready b sizeLen chunkSize ∧ chunkSize + sizeLen + 4 < 2 ^ 63 ∨
    Last b guardLen sizeLen ∨
    2 ^ 63 ≤ chunkSize + sizeLen + 4 ∧ chunkAct b guardLen = .wild := by
  by_cases h0 : chunkSize = 0
  · by_cases hg : guardLen < (sizeLen + 4) % 2 ^ 32
    · exact Or.inl ⟨h, hsize, Or.inl ⟨h0, hg⟩⟩
    · exact Or.inr (Or.inr (Or.inl ⟨h, hsize.trans h0, hg⟩))
  · by_cases hov : 2 ^ 63 ≤ chunkSize + sizeLen + 4
    · refine Or.inr (Or.inr (Or.inr ⟨hov, ?_⟩))
      unfold chunkAct
      rw [h]
      simp only [(line_found h).2, hsize]
      rw [if_pos h0, if_pos (by omega)]
    · by_cases hw : (b.length_ : Int) < chunkSize + sizeLen + 4
      · exact Or.inl ⟨h, hsize, Or.inr ⟨h0, by omega, hw⟩⟩
      · exact Or.inr (Or.inl ⟨⟨h, hsize, h0, by omega⟩, by omega⟩)

theorem search_congr {b' : AutoBuffer} (h : strnstrReads b.parray_ crlf (toInt32 b.length_) ≤ b.length_)
    (hd : b'.data = b.data) : search b' crlf = search b crlf := by
  have hlen : b'.length_ = b.length_ := by
    rw [← b'.data_length, hd, b.data_length]
  have hb := b.length_le
  have hb' := b'.length_le
  rw [strnstrReads_eq crlf_ne] at h
  unfold search
  rw [hlen]
  refine strnstr_congr crlf_ne ?_ hb (by omega) h
  unfold AutoBuffer.data at hd
  rw [hlen] at hd
  exact hd.symm

/-- the first scan of a step whose received bytes are clean, and the outcome of one that waits -/
theorem first_inside (h : toSizeT (toInt32 b.length_) ≤ b.length_ ∨ 0 ∈ b.data) {r : Int × Int}
    (hr : r = (0, (strnstrReads b.parray_ crlf (toInt32 b.length_) : Int))) :
    0 ≤ r.1 ∧ r.2 ≤ b.length_ := by
  rw [hr]
  exact ⟨Int.le_refl 0, Int.ofNat_le.mpr (size_reads_iff.mpr h)⟩

structure Alike (b b' : AutoBuffer) : Prop where
  data : b'.data = b.data
  length : b'.length_ = b.length_
  search : search b' crlf = search b crlf

theorem Alike.of_data (h : toSizeT (toInt32 b.length_) ≤ b.length_ ∨ 0 ∈ b.data) {b' : AutoBuffer}
    (hd : b'.data = b.data) : Alike b b' where
  data := hd
  length := by rw [← b'.data_length, hd, b.data_length]
  search := search_congr (size_reads_iff.mpr h) hd

theorem Waits.inside {chunkSize : Int} (h : Waits b guardLen sizeLen chunkSize)
    (hclean : toSizeT (toInt32 b.length_) ≤ b.length_ ∨ 0 ∈ b.data) : Inside b guardLen := by
  refine ⟨?_, ?_, ?_, fun b' hd => ?_⟩
  · rw [h.act]
    exact Chunk.noConfusion
  · intro r hr _
    rw [h.reads] at hr
    exact first_inside hclean (List.mem_singleton.mp hr)
  · rw [h.act]
    exact Nat.zero_le _
  · have ha := Alike.of_data hclean hd
    have h' : Waits b' guardLen sizeLen chunkSize :=
      ⟨ha.search.trans h.found, by rw [hd, h.size], by rw [ha.length]; exact h.short⟩
    rw [h.act, h'.act]

theorem Ready.inside {chunkSize : Int} (h : Ready b sizeLen chunkSize)
    (hclean : toSizeT (toInt32 b.length_) ≤ b.length_ ∨ 0 ∈ b.data)
    (hov : chunkSize + sizeLen + 4 < 2 ^ 63) (h0 : 0 ≤ chunkSize + sizeLen + 2)
    (hne : chunkSize ≠ -2) : Inside b guardLen := by
  have henough := h.enough
  have htail := h.tail h0
  have hpos : chunkTail b.parray_ (sizeLen + 2 + chunkSize) = some true →
      0 < chunkSize ∧ (toSizeT chunkSize : Int) = chunkSize := by
    intro ht
    have hnn := chunk_nonneg h.found ht hne henough
    have hs := toSizeT_nonneg hnn (by omega)
    have := h.ne
    omega
  refine ⟨?_, ?_, ?_, fun b' hd => ?_⟩
  · rw [h.act hov, htail]
    cases decide (crlf <+: b.data.drop (sizeLen + 2 + chunkSize).toNat) with
    | false => exact Chunk.noConfusion
    | true => exact Chunk.noConfusion
  · intro r hr hlt
    rw [h.reads] at hr
    rcases List.mem_cons.mp hr with hr | hr
    · exact first_inside hclean hr
    · rcases List.mem_cons.mp hr with rfl | hr
      · simp only
        split <;> omega
      · split at hr
        · rename_i ht
          obtain rfl := List.mem_singleton.mp hr
          obtain ⟨-, hs⟩ := hpos ht
          simp only
          omega
        · cases hr
  · rw [h.act hov]
    cases ht : chunkTail b.parray_ (sizeLen + 2 + chunkSize) with
    | none => exact Nat.zero_le _
    | some ok =>
      cases ok with
      | false => exact Nat.zero_le _
      | true =>
        show (sizeLen + 2 + chunkSize + 2).toNat ≤ b.length_
        omega
  · have ha := Alike.of_data hclean hd
    have h' : Ready b' sizeLen chunkSize :=
      ⟨ha.search.trans h.found, by rw [hd, h.size], h.ne, by rw [ha.length]; exact henough⟩
    rw [h.act hov, h'.act hov, htail, h'.tail h0, hd]

theorem Last.inside (h : Last b guardLen sizeLen)
    (hclean : toSizeT (toInt32 b.length_) ≤ b.length_ ∨ 0 ∈ b.data)
    (htrailer : sizeLen + 2 + toSizeT (toInt32 b.length_) ≤ b.length_ ∨
      0 ∈ b.data.drop (sizeLen + 2)) : Inside b guardLen := by
  have hle := (line_found h.found).1
  have hblock := b.length_le
  have hreads := (trailer_reads_iff hle).mpr htrailer
  refine ⟨?_, ?_, ?_, fun b' hd => ?_⟩
  · have hw := strnstr_ne_wild (b.parray_.drop (sizeLen + 2)) (toInt32 b.length_)
      crlf_ne (by
        rw [List.length_drop]
        omega)
    rw [h.act]
    cases hs : strnstr (b.parray_.drop (sizeLen + 2)) crlf (toInt32 b.length_) with
    | wild => exact absurd hs hw
    | null => exact Chunk.noConfusion
    | found trailer => exact Chunk.noConfusion
  · intro r hr _
    rw [h.reads] at hr
    rcases List.mem_cons.mp hr with hr | hr
    · exact first_inside hclean hr
    · obtain rfl := List.mem_singleton.mp hr
      simp only
      omega
  · rw [h.act]
    cases hs : strnstr (b.parray_.drop (sizeLen + 2)) crlf (toInt32 b.length_) with
    | wild => exact Nat.zero_le _
    | null => exact Nat.zero_le _
    | found trailer =>
      have hfound : trailer + 2 ≤ _ := strnstr_found_le crlf_ne hs
      show sizeLen + 2 + trailer + 2 ≤ b.length_
      omega
  · have ha := Alike.of_data hclean hd
    have h' : Last b' guardLen sizeLen :=
      ⟨ha.search.trans h.found, by rw [hd, h.size], h.enough⟩
    have hb' := b'.length_le
    have hblock' : ∀ x : AutoBuffer, x.length_ = b.length_ →
        b.length_ - (sizeLen + 2) ≤ (x.parray_.drop (sizeLen + 2)).length := by
      intro x hx
      have := x.length_le
      rw [List.length_drop]
      omega
    have htake : (b.parray_.drop (sizeLen + 2)).take (b.length_ - (sizeLen + 2)) =
        (b'.parray_.drop (sizeLen + 2)).take (b.length_ - (sizeLen + 2)) := by
      rw [← List.drop_take, ← List.drop_take]
      have hdata := hd
      unfold AutoBuffer.data at hdata
      rw [ha.length] at hdata
      rw [hdata]
    rw [strnstrReads_eq crlf_ne] at hreads
    rw [h.act, h'.act, ha.length, strnstr_congr crlf_ne htake (hblock' b rfl)
      (hblock' b' ha.length) (by omega)]

/-- **A clean step** stays inside the received bytes. -/
theorem inside_of_clean (h : Clean b guardLen) : Inside b guardLen := by
  cases hs : search b crlf with
  | wild =>
    have := size_reads_iff.mpr h.1
    have := b.length_le
    exact absurd hs (strnstr_ne_wild _ _ crlf_ne (by omega))
  | null =>
    have hact : ∀ b' : AutoBuffer, search b' crlf = .null → chunkAct b' guardLen = .wait := by
      intro b' h'
      unfold chunkAct
      rw [h']
    refine ⟨?_, ?_, ?_, fun b' hd => ?_⟩
    · rw [hact b hs]
      exact Chunk.noConfusion
    · intro r hr _
      unfold chunkReads at hr
      rw [hs] at hr
      exact first_inside h.1 (List.mem_singleton.mp hr)
    · rw [hact b hs]
      exact Nat.zero_le _
    · rw [hact b hs, hact b' ((Alike.of_data h.1 hd).search.trans hs)]
  | found sizeLen =>
    have hfit : SizeFits b guardLen sizeLen (chunkSizeOf (b.data.take sizeLen)) := by
      have := h.2
      rwa [hs] at this
    have hlt : sizeLen + 2 < 2 ^ 31 := search_found_lt crlf_ne hs
    rcases chunk_cases hs guardLen rfl with hw | ⟨hready, hov⟩ | hlast | ⟨hov, -⟩
    · exact hw.inside h.1
    · rcases hfit with ⟨hpos, -⟩ | ⟨-, hne, h0⟩ | ⟨h0, -⟩
      · exact hready.inside h.1 hov (by omega) (by omega)
      · exact hready.inside h.1 hov (by omega) hne
      · exact absurd h0 hready.ne
    · have hzero := hlast.size
      rcases hfit with ⟨hpos, -⟩ | ⟨hneg, -⟩ | ⟨-, hg | htrailer⟩
      · omega
      · omega
      · exact absurd hg hlast.enough
      · exact hlast.inside h.1 htrailer
    · rcases hfit with ⟨-, hno⟩ | ⟨hneg, -⟩ | ⟨h0, -⟩ <;> omega

/-- **A step that is not clean** does not. -/
theorem clean_of_inside (hlen : b.length_ < 2 ^ 64) (h : Inside b guardLen) :
    Clean b guardLen := by
  have hfirst : ∀ t, chunkReads b guardLen =
      (0, (strnstrReads b.parray_ crlf (toInt32 b.length_) : Int)) :: t →
        strnstrReads b.parray_ crlf (toInt32 b.length_) ≤ b.length_ := by
    intro t ht
    have hr := h.reads _ (by rw [ht]; exact List.mem_cons_self)
    simp only at hr
    omega
  refine ⟨size_reads_iff.mp (hfirst _ rfl), ?_⟩
  cases hs : search b crlf with
  | wild => trivial
  | null => trivial
  | found sizeLen =>
    show SizeFits b guardLen sizeLen (chunkSizeOf (b.data.take sizeLen))
    have hle := (line_found hs).1
    generalize hsize : chunkSizeOf (b.data.take sizeLen) = chunkSize
    rcases chunk_cases hs guardLen hsize with hw | ⟨hready, hov⟩ | hlast | ⟨-, hwild⟩
    · rcases hw.short with ⟨h0, hg⟩ | ⟨h0, hov, hw⟩
      · exact Or.inr (Or.inr ⟨h0, Or.inl hg⟩)
      · by_cases hpos : 0 < chunkSize
        · exact Or.inl ⟨hpos, hov⟩
        · exact Or.inr (Or.inl ⟨by omega, by omega, by omega⟩)
    · have hr := h.reads
      rw [hready.reads] at hr
      have hend := hr _ (List.mem_cons_of_mem _ List.mem_cons_self) (by
        simp only
        split <;> omega)
      simp only at hend
      by_cases hpos : 0 < chunkSize
      · exact Or.inl ⟨hpos, hov⟩
      · have hne := hready.ne
        refine Or.inr (Or.inl ⟨by omega, ?_, by omega⟩)
        -- the end of the line passes for the end of the chunk
        rintro rfl
        have htail := hready.tail (by omega)
        have hcrlf : crlf <+: b.data.drop ((sizeLen : Int) + 2 + -2).toNat := by
          rw [show ((sizeLen : Int) + 2 + -2).toNat = sizeLen by omega]
          exact Find.findUpTo_isPrefix notNul (search_found crlf_ne hs)
        rw [decide_eq_true hcrlf] at htail
        rw [if_pos htail] at hr
        have hbig : toSizeT (-2) = 18446744073709551614 := by
          unfold toSizeT
          decide
        have happend := hr _ (List.mem_cons_of_mem _ (List.mem_cons_of_mem _ List.mem_cons_self)) (by
          simp only [hbig]
          omega)
        simp only [hbig] at happend
        omega
    · have hr := h.reads
      rw [hlast.reads] at hr
      have htrailer := hr _ (List.mem_cons_of_mem _ List.mem_cons_self)
      simp only at htrailer
      refine Or.inr (Or.inr ⟨hsize.symm.trans hlast.size, Or.inr ?_⟩)
      exact (trailer_reads_iff hle).mp (by omega)
    · exact absurd hwild h.outcome

end

/-! ## sessions -/

/-- the call that a parser is in; `wild` is one that has left the block -/
inductive Call where
  | none
  | raw
  | buffer (_recv_buffer : AutoBuffer)
  | wild

/-- `scanned` are the chunk decoding steps so far, each with the buffer it worked on and the length
that the last chunk is compared with -/
structure Session where
  parser : Parser
  call : Call := .none
  scanned : List (AutoBuffer × Nat) := []

def decoding (s : Session) : Option (AutoBuffer × Nat) :=
  if s.parser.recvstatus_ = .kBody ∧ s.parser.bodyreceiver_.isSome ∧
      s.parser.headfields_.isTransferEncodingChunked then
    match s.call with
    | .raw => some (s.parser.recvbuf_, s.parser.recvbuf_.length_)
    | .buffer b => some (b, s.parser.recvbuf_.length_)
    | _ => none
  else none

theorem decoding_turn {s : Session} {b : AutoBuffer} {guardLen : Nat}
    (h : decoding s = some (b, guardLen)) :
    s.call = .raw ∧ recvTurn s.parser = (bodyTurn s.parser.toCore b guardLen).map
      (fun t => { s.parser with toCore := t.1, recvbuf_ := t.2 }) ∨
    s.call = .buffer b ∧ recvBufferTurn (s.parser, b) =
      (bodyTurn s.parser.toCore b guardLen).map (fun t => ({ s.parser with toCore := t.1 }, t.2)) := by
  unfold decoding at h
  split at h
  · rename_i hbody
    split at h
    · rename_i hcall
      cases h
      refine Or.inl ⟨hcall, ?_⟩
      unfold recvTurn
      simp only [hbody.1]
    · rename_i hcall
      cases h
      refine Or.inr ⟨hcall, ?_⟩
      unfold recvBufferTurn
      simp only [hbody.1]
    · cases h
  · cases h

inductive SessionAction where
  | recv (_buffer : Bytes)
  | recvBuffer (_recv_buffer : AutoBuffer)
  | turn

/-- the buffer of a `Recv(AutoBuffer&)` is the caller's before and after the call -/
def sessionStep (s : Session) : SessionAction → Option Session
  | .recv _buffer =>
    match s.call with
    | .none =>
      if _buffer = [] then some s
      else some { s with parser := enter s.parser _buffer, call := .raw }
    | _ => none
  | .recvBuffer b =>
    match s.call with
    | .none =>
      if b.length_ = 0 then some s
      else some { s with parser := capture s.parser b.data, call := .buffer b }
    | _ => none
  | .turn =>
    let scanned := s.scanned ++ (decoding s).toList
    match s.call with
    | .raw =>
      match recvTurn s.parser with
      | .again p => some ⟨p, .raw, scanned⟩
      | .ret p => some ⟨p, .none, scanned⟩
      | .wild => some ⟨s.parser, .wild, scanned⟩
    | .buffer b =>
      match recvBufferTurn (s.parser, b) with
      | .again t => some ⟨t.1, .buffer t.2, scanned⟩
      | .ret t => some ⟨t.1, .none, scanned⟩
      | .wild => some ⟨s.parser, .wild, scanned⟩
    | _ => none

/-- a chunk decoding step is taken when it is clean -/
def CleanStep (s : Session) (_ : SessionAction) : Prop := ∀ x ∈ decoding s, Clean x.1 x.2

instance (s : Session) (a : SessionAction) : Decidable (CleanStep s a) :=
  inferInstanceAs (Decidable (∀ x ∈ decoding s, Clean x.1 x.2))

theorem sessionStep_scanned {s t : Session} {a : SessionAction} (h : sessionStep s a = some t) :
    t.scanned = s.scanned ∨ t.scanned = s.scanned ++ (decoding s).toList := by
  cases a with
  | recv _buffer =>
    left
    simp only [sessionStep] at h
    split at h
    · split at h <;> cases h <;> rfl
    · cases h
  | recvBuffer b =>
    left
    simp only [sessionStep] at h
    split at h
    · split at h <;> cases h <;> rfl
    · cases h
  | turn =>
    right
    simp only [sessionStep] at h
    split at h
    · split at h <;> cases h <;> rfl
    · split at h <;> cases h <;> rfl
    · cases h

/-- **Scans.**  In a run whose chunk decoding steps are all clean they all stay inside the received
bytes; a step that is not clean does not. -/
theorem scans_inside (r : BodyReceiver) (s : Session)
    (h : Runs.Run sessionStep CleanStep { parser := { bodyreceiver_ := some r } } s) :
    (∀ x ∈ s.scanned, Inside x.1 x.2) ∧
    ∀ x ∈ decoding s, x.1.length_ < 2 ^ 64 → (Inside x.1 x.2 ↔ Clean x.1 x.2) := by
  refine ⟨h.keep (P := fun s => ∀ x ∈ s.scanned, Inside x.1 x.2) ?_ ?_, fun x _ hlen =>
    ⟨clean_of_inside hlen, inside_of_clean⟩⟩
  · intro s a t hs hC hstep x hx
    rcases sessionStep_scanned hstep with he | he
    · rw [he] at hx
      exact hs x hx
    · rw [he] at hx
      rcases List.mem_append.mp hx with hx | hx
      · exact hs x hx
      · exact inside_of_clean (hC x (Option.mem_toList.mp hx))
  · intro x hx
    cases hx

def threeBytes : List SessionAction :=
  [.recv (ascii "HTTP/1.1 200 OK\r\nTransfer-Encoding: chunked\r\n\r\n3\r\nabc\r\n"), .turn, .turn,
    .turn]

theorem scans_inside_abc : ∃ s : Session, s.scanned.length = 1 ∧ ∀ x ∈ s.scanned, Inside x.1 x.2 := by
  obtain ⟨s, hs, hone⟩ : ∃ s, Runs.Run sessionStep CleanStep { parser := {} } s ∧
      (s.scanned.length == 1) = true := Runs.Run.of_checked (l := threeBytes) (by decide +kernel)
  exact ⟨s, beq_iff_eq.mp hone, (scans_inside {} s hs).1⟩

/-- the same with the beginning of a last chunk -/
def cutTrailer : List SessionAction :=
  [.recv (ascii "HTTP/1.1 200 OK\r\nTransfer-Encoding: chunked\r\n\r\n3\r\nabc\r\n0\r\nab"), .turn,
    .turn, .turn, .turn]

/-- **A last chunk without its trailer**, `"0\r\nab"`: the scan for the end of the trailer goes on
into bytes that the chunk before it has left, and eight of five bytes are taken out of the buffer. -/
theorem scans_beyond : ∃ (s : Session) (x : AutoBuffer × Nat),
    Runs.AnyRun sessionStep { parser := {} } s ∧ x ∈ s.scanned ∧ x.1.length_ = 5 ∧
    (chunkAct x.1 x.2).consumes = 8 ∧ ¬ Inside x.1 x.2 := by
  obtain ⟨s, hs, htest⟩ : ∃ s, Runs.AnyRun sessionStep { parser := {} } s ∧ (s.scanned.any fun x =>
      x.1.length_ == 5 && (chunkAct x.1 x.2).consumes == 8) = true :=
    Runs.Run.of_test (l := cutTrailer) (by decide +kernel)
  obtain ⟨x, hx, hx'⟩ := List.any_eq_true.mp htest
  rw [Bool.and_eq_true, beq_iff_eq, beq_iff_eq] at hx'
  refine ⟨s, x, hs, hx, hx'.1, hx'.2, fun hin => ?_⟩
  have := hin.consumes
  omega

end Http
