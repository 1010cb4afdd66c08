import LearnDiary.Http.Fields

/-!
# `Content-Range` (comm/http.cc)

`ContentRange` writes an output as soon as it has the text of it, so a range that breaks off before its
slash leaves the start behind.

* `contentRange_decimal`  three decimal numbers are read;
* `contentRange_broken`   what a range without the slash leaves;
* `contentRange_failed`   how a call fails;
* `contentRange_iff`      when a failure leaves zeros.
-/

namespace Http
namespace HeaderFields

def kStringContentRange : Bytes := ascii "Content-Range"
def dash : Bytes := [45]
def slash : Bytes := [47]

/-- what `start`, `end` and `total` point to -/
structure Range where
  start : Int := 0
  end_ : Int := 0
  total : Int := 0
deriving DecidableEq

def contentRange (f : HeaderFields) : Bool × Range :=
  match f.headerField kStringContentRange with
  | none => (false, {})
  | some range =>
    if startsWith range (ascii "bytes ") then
      let bytes := trim (range.drop 6)
      match Find.find dash bytes with
      | none => (false, {})
      | some range_start =>
        let start := toInt32 (strtol 10 (bytes.take range_start))
        let behind := bytes.drop (range_start + 1)
        match Find.find slash behind with
        | none => (false, { start := start })
        | some k =>
          (true, ⟨start, toInt32 (strtol 10 (behind.take k)), toInt32 (strtol 10 (behind.drop (k + 1)))⟩)
    else (false, {})

structure Decimal (s : Bytes) : Prop where
  some_digit : s ≠ []
  digit : ∀ c ∈ s, ∃ d, d < 10 ∧ c = digitChar d
  le_max : digits 10 s 0 < 2 ^ 31

/-- the text behind the unit breaks off before a slash comes: `start` is what stands before the dash -/
structure Broken (value start : Bytes) : Prop where
  unit : ∃ spec rest, value = ascii "bytes " ++ spec ∧ trim spec = start ++ 45 :: rest ∧ 47 ∉ rest
  first : 45 ∉ start

/-- the three numbers of a range are read, and a call that fails leaves zeros -/
structure Settles (f : HeaderFields) : Prop where
  read : ∀ s e t : Bytes, Decimal s → Decimal e → Decimal t →
    f.headerField kStringContentRange = some (ascii "bytes " ++ (s ++ (dash ++ (e ++ (slash ++ t))))) →
    f.contentRange = (true, ⟨digits 10 s 0, digits 10 e 0, digits 10 t 0⟩)
  fail : f.contentRange.1 = false → f.contentRange.2 = {}

/-! ## numbers -/

theorem Decimal.value {s : Bytes} (h : Decimal s) : toInt32 (strtol 10 s) = digits 10 s 0 := by
  have hmax := h.le_max
  rw [strtol_digits (by decide) h.digit, clampLong_of_lt (by omega), toInt32_of_lt hmax]

theorem Decimal.plain {s : Bytes} (h : Decimal s) :
    (∀ c ∈ s, isspace c = false) ∧ 45 ∉ s ∧ 47 ∉ s := by
  obtain ⟨hsp, -, -, hne⟩ := digits_plain (b := 10) (by decide) h.digit
  refine ⟨hsp, fun hm => hne 45 hm (by decide), fun hm => ?_⟩
  obtain ⟨d, hd, he⟩ := h.digit 47 hm
  have hdigit : ∀ d < 10, (47 : UInt8) ≠ digitChar d := by decide
  exact hdigit d hd he

/-! ## the ways through the function -/

section
variable {f : HeaderFields} {value : Bytes}

theorem startsWith_unit (spec : Bytes) : startsWith (ascii "bytes " ++ spec) (ascii "bytes ") = true := by
  rw [startsWith_eq]
  exact List.isPrefixOf_iff_prefix.mpr (List.prefix_append _ _)

theorem unit_drop (spec : Bytes) : (ascii "bytes " ++ spec).drop 6 = spec := by
  have hlen : 6 = (ascii "bytes ").length := rfl
  rw [hlen, List.drop_left]

/-- **A range of decimal numbers** is read. -/
theorem contentRange_decimal {s e t : Bytes} (hs : Decimal s) (he : Decimal e) (ht : Decimal t)
    (h : f.headerField kStringContentRange =
      some (ascii "bytes " ++ (s ++ (dash ++ (e ++ (slash ++ t)))))) :
    f.contentRange = (true, ⟨digits 10 s 0, digits 10 e 0, digits 10 t 0⟩) := by
  have hspace : ∀ c ∈ s ++ (dash ++ (e ++ (slash ++ t))), isspace c = false := by
    intro c hc
    simp only [dash, slash, List.mem_append, List.mem_singleton] at hc
    rcases hc with hc | rfl | hc | rfl | hc
    · exact hs.plain.1 c hc
    · rfl
    · exact he.plain.1 c hc
    · rfl
    · exact ht.plain.1 c hc
  have hdash : Find.find dash (s ++ (dash ++ (e ++ (slash ++ t)))) = some s.length :=
    Find.find_line hs.plain.2.1 _
  have hbehind : (s ++ (dash ++ (e ++ (slash ++ t)))).drop (s.length + 1) = e ++ (slash ++ t) := by
    rw [← List.drop_drop, List.drop_left]
    rfl
  have hslash : Find.find slash (e ++ (slash ++ t)) = some e.length := Find.find_line he.plain.2.2 _
  have hrest : (e ++ (slash ++ t)).drop (e.length + 1) = t := by
    rw [← List.drop_drop, List.drop_left]
    rfl
  unfold contentRange
  rw [h]
  simp only
  rw [if_pos (startsWith_unit _), unit_drop, trim_of_no_space hspace, hdash]
  simp only
  rw [hbehind, hslash]
  simp only
  rw [List.take_left, List.take_left, hrest, hs.value, he.value, ht.value]

/-- **A range that breaks off** fails with its start written. -/
theorem contentRange_broken {start : Bytes} (h : f.headerField kStringContentRange = some value)
    (hb : Broken value start) :
    f.contentRange = (false, { start := toInt32 (strtol 10 start) }) := by
  obtain ⟨spec, rest, rfl, htrim, hslash⟩ := hb.unit
  have hdash : Find.find dash (start ++ 45 :: rest) = some start.length := Find.find_line hb.first rest
  have hbehind : (start ++ 45 :: rest).drop (start.length + 1) = rest := by
    rw [← List.drop_drop, List.drop_left]
    rfl
  unfold contentRange
  rw [h]
  simp only
  rw [if_pos (startsWith_unit _), unit_drop, htrim, hdash]
  simp only
  rw [hbehind, show Find.find slash rest = none from Find.find_single_none.mpr hslash]
  simp only
  rw [List.take_left]

/-- **A call that fails** has left zeros, or its range breaks off. -/
theorem contentRange_failed (h : f.contentRange.1 = false) : f.contentRange.2 = {} ∨
    ∃ value start, f.headerField kStringContentRange = some value ∧ Broken value start := by
  unfold contentRange at h ⊢
  split
  · exact Or.inl rfl
  · rename_i range hfield
    rw [hfield] at h
    simp only at h
    by_cases hunit : startsWith range (ascii "bytes ") = true
    · rw [if_pos hunit] at h ⊢
      obtain ⟨spec, rfl⟩ := List.isPrefixOf_iff_prefix.mp (by rwa [startsWith_eq] at hunit)
      simp only [unit_drop] at h ⊢
      cases hdash : Find.find dash (trim spec) with
      | none => exact Or.inl rfl
      | some range_start =>
        simp only [hdash] at h ⊢
        obtain ⟨hfirst, hcut⟩ := Find.find_single hdash
        cases hslash : Find.find slash ((trim spec).drop (range_start + 1)) with
        | none =>
          exact Or.inr ⟨_, _, hfield, ⟨spec, _, rfl, hcut, Find.find_single_none.mp hslash⟩, hfirst⟩
        | some k =>
          rw [hslash] at h
          cases h
    · rw [if_neg hunit]
      exact Or.inl rfl

end

/-- **The outputs of a call** are settled exactly when every range that breaks off has the start 0. -/
theorem contentRange_iff (f : HeaderFields) : f.Settles ↔
    ∀ value start, f.headerField kStringContentRange = some value → Broken value start →
      toInt32 (strtol 10 start) = 0 := by
  constructor
  · intro h value start hfield hb
    have hout := contentRange_broken hfield hb
    have hfail := h.fail (by rw [hout])
    rw [hout] at hfail
    exact congrArg Range.start hfail
  · intro h
    refine ⟨fun s e t hs he ht hfield => contentRange_decimal hs he ht hfield, fun hfail => ?_⟩
    rcases contentRange_failed hfail with hzero | ⟨value, start, hfield, hb⟩
    · exact hzero
    · rw [contentRange_broken hfield hb, h value start hfield hb]

/-- **A range without a total** fails and leaves its start. -/
theorem range_start_left :
    ¬ Settles (headerFiled {} kStringContentRange (ascii "bytes 5-6")) := by
  intro h
  exact absurd (h.fail (by decide +kernel)) (by decide +kernel)

end HeaderFields
end Http
