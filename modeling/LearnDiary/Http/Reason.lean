import LearnDiary.Http.Lines

/-!
# The reason phrase (comm/http.cc)

`StatusLine::ToString` prints the phrase as it is; `FromString` splits the line at its spaces and takes
a phrase only where there are three tokens, so it takes a phrase of one word.

* `tokens_words`           a phrase of several words gives several tokens;
* `fromString_toString`    what `FromString` makes of a printed line;
* `status_line_iff`        when the line comes back.
-/

namespace Http

/-- a phrase that does not begin or end with a space -/
structure Phrase (s : Bytes) : Prop where
  bytes : ∀ c ∈ s, LineByte c
  first : s.head? ≠ some 32
  last : s.getLast? ≠ some 32

/-! ## tokens of a phrase -/

theorem nextToken_space {s : Bytes} (h : ∃ c ∈ s, c ≠ 32) : nextToken space s ≠ none := by
  obtain ⟨c, hc, hne⟩ := h
  intro hnone
  unfold nextToken at hnone
  split at hnone
  · rename_i hnil
    have hall := List.dropWhile_eq_nil_iff.mp hnil c hc
    exact hne (by simpa [space] using hall)
  · cases hnone

theorem tokens_nil (fuel : Nat) : tokens space fuel [] = [] := by
  cases fuel <;> rfl

theorem tokens_some {s : Bytes} (h : ∃ c ∈ s, c ≠ 32) (fuel : Nat) :
    ∃ t l, tokens space (fuel + 1) s = t :: l := by
  unfold tokens
  cases hn : nextToken space s with
  | none => exact absurd hn (nextToken_space h)
  | some r => exact ⟨r.1, _, rfl⟩

theorem tokens_word {s : Bytes} (hne : s ≠ []) (h : 32 ∉ s) (fuel : Nat) :
    tokens space (fuel + 1) s = [s] := by
  have hall : ∀ a ∈ s, (!space.contains a) = true := by
    intro a ha
    rw [show space = [32] from rfl, not_delims h a ha]
    rfl
  obtain ⟨c, s', rfl⟩ := List.exists_cons_of_ne_nil hne
  have h0 : ¬ space.contains c = true := by
    rw [show space = [32] from rfl, not_delims h c List.mem_cons_self]
    exact Bool.false_ne_true
  unfold tokens nextToken
  rw [List.dropWhile_cons_of_neg h0]
  simp only
  rw [List.takeWhile_eq_self_iff.mpr hall, List.dropWhile_eq_nil_iff.mpr hall, tokens_nil]

/-- **Several words** are several tokens. -/
theorem tokens_words {s : Bytes} (hs : Phrase s) (h : 32 ∈ s) (fuel : Nat) :
    ∃ t₁ t₂ l, tokens space (fuel + 2) s = t₁ :: t₂ :: l := by
  obtain ⟨w, rest, rfl, hw⟩ := List.eq_append_cons_of_mem h
  have hwne : w ≠ [] := by
    rintro rfl
    exact hs.first rfl
  have hrest : ∃ c ∈ rest, c ≠ 32 := by
    have hlast := hs.last
    rw [List.getLast?_append_cons, List.getLast?_cons] at hlast
    cases rest with
    | nil => exact absurd rfl hlast
    | cons c rest =>
      refine ⟨(c :: rest).getLast (List.cons_ne_nil c rest), List.getLast_mem _, fun he => hlast ?_⟩
      rw [List.getLast?_eq_some_getLast (List.cons_ne_nil c rest), he]
      rfl
  obtain ⟨t, l, ht⟩ := tokens_some hrest fuel
  refine ⟨w, t, l, ?_⟩
  rw [show space = [32] from rfl, tokens_cons hwne hw rfl, tokens_skip]
  exact congrArg (w :: ·) ht

/-! ## the line that was printed -/

/-- the phrase that `FromString` leaves: that of the line where it is one word -/
def takenPhrase (l₀ phrase : Bytes) : Bytes := if phrase ≠ [] ∧ 32 ∉ phrase then phrase else l₀

namespace StatusLine
variable {l : StatusLine}

theorem takenPhrase_eq {phrase : Bytes} (hs : Phrase phrase) (fuel : Nat) (l₀ : Bytes) :
    (match tokens space (fuel + 2) phrase with
      | [t2] => t2
      | _ => l₀) = takenPhrase l₀ phrase := by
  unfold takenPhrase
  by_cases hne : phrase = []
  · rw [if_neg (fun h => h.1 hne), hne, tokens_nil]
  · by_cases h : 32 ∈ phrase
    · obtain ⟨t₁, t₂, l, ht⟩ := tokens_words hs h fuel
      rw [if_neg (fun hw => hw.2 h), ht]
    · rw [if_pos ⟨hne, h⟩, tokens_word hne h]

/-- **A printed line** is accepted; its phrase is taken over where it is one word. -/
theorem fromString_toString (hver : l.http_version_ ≠ .kVersion_Unknow)
    (hlow : -2 ^ 31 ≤ l.statuscode_) (hhigh : l.statuscode_ < 2 ^ 31) (hs : Phrase l.reason_phrase_)
    (l₀ : StatusLine) : l₀.fromString l.toString =
      (true, { l with reason_phrase_ := takenPhrase l₀.reason_phrase_ l.reason_phrase_ }) := by
  have hv := version_bytes l.http_version_
  have hvne : kHttpVersionString l.http_version_ ≠ [] := by cases l.http_version_ <;> decide
  have hc := printInt_bytes l.statuscode_
  have hcode : (printInt l.statuscode_).take 15 = printInt l.statuscode_ := by
    refine List.take_of_length_le ?_
    unfold printInt
    split
    · have := printNat_length (b := 10) (n := l.statuscode_.natAbs) (k := 9) (by omega)
      rw [List.length_cons]
      omega
    · have := printNat_length (b := 10) (n := l.statuscode_.toNat) (k := 9) (by omega)
      omega
  have hprint : l.toString = kHttpVersionString l.http_version_ ++ (32 ::
      (printInt l.statuscode_ ++ (32 :: l.reason_phrase_))) ++ crlf := by
    unfold toString
    rw [hcode]
    simp [space]
  have hbytes : ∀ c ∈ kHttpVersionString l.http_version_ ++ (32 ::
      (printInt l.statuscode_ ++ (32 :: l.reason_phrase_))), LineByte c := by
    intro c hm
    simp only [List.mem_append, List.mem_cons] at hm
    rcases hm with hm | rfl | hm | rfl | hm
    · exact (hv c hm).1
    · decide
    · exact (hc c hm).1
    · decide
    · exact hs.bytes c hm
  have hint : toInt32 (strtol 10 (printInt l.statuscode_)) = l.statuscode_ := by
    rw [strtol_printInt (by omega) (by omega), toInt32_eq hlow hhigh]
  rw [hprint, fromString_append hbytes]
  unfold splitToken
  generalize hf : (kHttpVersionString l.http_version_ ++ (32 ::
    (printInt l.statuscode_ ++ (32 :: l.reason_phrase_)))).length + 1 = fuel
  -- two tokens are taken before the phrase, and the text has a byte for each of the next two
  obtain ⟨k, rfl⟩ : ∃ k, fuel = k + 4 := by
    have h6 : 0 < (kHttpVersionString l.http_version_).length := List.length_pos_iff.mpr hvne
    simp only [List.length_append, List.length_cons] at hf
    exact ⟨fuel - 4, by omega⟩
  rw [show space = [32] from rfl, tokens_cons hvne (fun hm => (hv 32 hm).2 rfl) rfl, tokens_skip,
    tokens_cons (printInt_ne_nil _) (fun hm => (hc 32 hm).2 rfl) rfl, tokens_skip]
  simp only [getHttpVersion_string, hver, if_false, hint]
  exact congrArg (fun phrase => (true, StatusLine.mk l.http_version_ l.statuscode_ phrase))
    (takenPhrase_eq hs k l₀.reason_phrase_)

end StatusLine

/-- **A status line comes back** into any status line exactly when its phrase is one word, or the line
it is read into has it already. -/
theorem status_line_iff (l l₀ : StatusLine) (hver : l.http_version_ ≠ .kVersion_Unknow)
    (hlow : -2 ^ 31 ≤ l.statuscode_) (hhigh : l.statuscode_ < 2 ^ 31) (hs : Phrase l.reason_phrase_) :
    l₀.fromString l.toString = (true, l) ↔
      (l.reason_phrase_ ≠ [] ∧ 32 ∉ l.reason_phrase_) ∨ l₀.reason_phrase_ = l.reason_phrase_ := by
  rw [StatusLine.fromString_toString hver hlow hhigh hs]
  have hiff : (true, { l with reason_phrase_ := takenPhrase l₀.reason_phrase_ l.reason_phrase_ }) =
      (true, l) ↔ takenPhrase l₀.reason_phrase_ l.reason_phrase_ = l.reason_phrase_ := by
    constructor
    · exact fun h => congrArg (fun r : Bool × StatusLine => r.2.reason_phrase_) h
    · intro h
      rw [h]
  rw [hiff]
  unfold takenPhrase
  split
  · rename_i hword
    exact ⟨fun _ => Or.inl hword, fun _ => rfl⟩
  · rename_i hword
    exact ⟨Or.inr, fun h => h.resolve_left hword⟩

theorem status_line_iff_ok : StatusLine.fromString {} (StatusLine.toString ⟨.kVersion_1_1, 200, ascii "OK"⟩) =
    (true, ⟨.kVersion_1_1, 200, ascii "OK"⟩) := by
  have hbytes : ∀ c ∈ ascii "OK", LineByte c :=
    List.forall_mem_cons.mpr ⟨by decide, List.forall_mem_cons.mpr ⟨by decide, fun c hc => nomatch hc⟩⟩
  exact (status_line_iff ⟨.kVersion_1_1, 200, ascii "OK"⟩ {} (by decide) (by decide) (by decide)
    ⟨hbytes, by decide, by decide⟩).mpr (Or.inl ⟨by decide, by decide⟩)

/-- **The phrase of two words** is lost, and where a phrase is empty an old one stays. -/
theorem status_line_words :
    StatusLine.fromString {} (StatusLine.toString ⟨.kVersion_1_1, 404, ascii "Not Found"⟩) =
      (true, ⟨.kVersion_1_1, 404, []⟩) ∧
    StatusLine.fromString { reason_phrase_ := ascii "OK" } (StatusLine.toString ⟨.kVersion_1_1, 200, []⟩) =
      (true, ⟨.kVersion_1_1, 200, ascii "OK"⟩) := by
  decide +kernel

end Http
