import LearnDiary.Base.Bytes

/-!
# `URLEncode` (comm/strutil.cc)

* `formDecode`     what a reader of an `application/x-www-form-urlencoded` text does;
* `urlEncode_roundtrip`  it reads the string back from what is appended.
-/

namespace Strutil

/-! ## the code -/

def upperDigit (n : Nat) : UInt8 := if n < 10 then UInt8.ofNat (48 + n) else UInt8.ofNat (55 + n)

/-- `%%%02X` of an `unsigned char` -/
def percent (ch : UInt8) : Bytes := [37, upperDigit (ch.toNat / 16), upperDigit (ch.toNat % 16)]

/-- letters, digits and `.-_*` -/
def isPlain (ch : UInt8) : Bool :=
  (65 ≤ ch && ch ≤ 90) || (97 ≤ ch && ch ≤ 122) || (48 ≤ ch && ch ≤ 57) ||
    ch == 46 || ch == 45 || ch == 95 || ch == 42

def urlEncodeStep (_encode_url : Bytes) (ch : UInt8) : Bytes :=
  if isPlain ch then _encode_url ++ [ch]
  else if ch == 32 then _encode_url ++ [43]
  else _encode_url ++ percent ch

/-- `URLEncode`, which appends to what `_encode_url` has -/
def urlEncode (_url _encode_url : Bytes) : Bytes := _url.foldl urlEncodeStep _encode_url

/-! ## its reader -/

def hexValue (ch : UInt8) : Option Nat :=
  if 48 ≤ ch ∧ ch ≤ 57 then some (ch.toNat - 48)
  else if 65 ≤ ch ∧ ch ≤ 70 then some (ch.toNat - 55)
  else if 97 ≤ ch ∧ ch ≤ 102 then some (ch.toNat - 87)
  else none

/-- `+` is a blank, `%` and two digits are a byte -/
def formDecode : Bytes → Option Bytes
  | [] => some []
  | ch :: l =>
    if ch = 43 then (formDecode l).map (32 :: ·)
    else if ch = 37 then
      match l with
      | high :: low :: l =>
        (hexValue high).bind fun h => (hexValue low).bind fun g =>
          (formDecode l).map (UInt8.ofNat (16 * h + g) :: ·)
      | _ => none
    else (formDecode l).map (ch :: ·)

/-! ## one byte -/

def escaped (ch : UInt8) : Bytes :=
  if isPlain ch then [ch] else if ch == 32 then [43] else percent ch

theorem urlEncodeStep_eq (_encode_url : Bytes) (ch : UInt8) :
    urlEncodeStep _encode_url ch = _encode_url ++ escaped ch := by
  unfold urlEncodeStep escaped
  split
  · rfl
  · split <;> rfl

theorem hexValue_upperDigit : ∀ n < 16, hexValue (upperDigit n) = some n := by
  decide

theorem upperDigit_plain : ∀ n < 16, isPlain (upperDigit n) = true := by
  decide

theorem ne_of_plain {ch : UInt8} (h : isPlain ch = true) : ch ≠ 43 ∧ ch ≠ 37 := by
  constructor
  · rintro rfl
    exact absurd h (by decide)
  · rintro rfl
    exact absurd h (by decide)

theorem high_lt (ch : UInt8) : ch.toNat / 16 < 16 := by
  have := ch.toNat_lt
  omega

theorem low_lt (ch : UInt8) : ch.toNat % 16 < 16 := Nat.mod_lt _ (by decide)

theorem formDecode_percent (ch : UInt8) (l : Bytes) :
    formDecode (percent ch ++ l) = (formDecode l).map (ch :: ·) := by
  show formDecode (37 :: _ :: _ :: l) = _
  rw [formDecode, if_neg (by decide), if_pos rfl]
  show (hexValue (upperDigit _)).bind _ = _
  rw [hexValue_upperDigit _ (high_lt ch), Option.bind_some, hexValue_upperDigit _ (low_lt ch),
    Option.bind_some, Nat.div_add_mod, UInt8.ofNat_toNat]

/-- **One byte** is read back, whatever follows. -/
theorem formDecode_escaped (ch : UInt8) (l : Bytes) :
    formDecode (escaped ch ++ l) = (formDecode l).map (ch :: ·) := by
  unfold escaped
  split
  · rename_i h
    obtain ⟨h43, h37⟩ := ne_of_plain h
    show formDecode (ch :: l) = _
    rw [formDecode.eq_def]
    show (if ch = 43 then _ else _) = _
    rw [if_neg h43, if_neg h37]
  · split
    · rename_i h
      rw [beq_iff_eq.mp h]
      show formDecode (43 :: l) = _
      rw [formDecode.eq_def]
      exact if_pos rfl
    · exact formDecode_percent ch l

theorem escaped_alphabet {ch c : UInt8} (h : c ∈ escaped ch) :
    isPlain c = true ∨ c = 43 ∨ c = 37 := by
  unfold escaped at h
  split at h
  · rename_i hp
    rw [List.mem_singleton.mp h]
    exact Or.inl hp
  · split at h
    · exact Or.inr (Or.inl (List.mem_singleton.mp h))
    · rcases List.mem_cons.mp h with rfl | h
      · exact Or.inr (Or.inr rfl)
      · rcases List.mem_cons.mp h with rfl | h
        · exact Or.inl (upperDigit_plain _ (high_lt ch))
        · rw [List.mem_singleton.mp h]
          exact Or.inl (upperDigit_plain _ (low_lt ch))

/-! ## the string -/

theorem urlEncode_eq (_url _encode_url : Bytes) :
    urlEncode _url _encode_url = _encode_url ++ _url.flatMap escaped := by
  unfold urlEncode
  induction _url generalizing _encode_url with
  | nil => exact (List.append_nil _).symm
  | cons ch l ih =>
    rw [List.foldl_cons, ih, urlEncodeStep_eq, List.append_assoc, List.flatMap_cons]

theorem formDecode_flatMap (x : Bytes) : formDecode (x.flatMap escaped) = some x := by
  induction x with
  | nil => rfl
  | cons ch x ih => rw [List.flatMap_cons, formDecode_escaped, ih, Option.map_some]

/-- **`URLEncode` appends** a text of letters, digits and `.-_*+%`, from which the string is read
back. -/
theorem urlEncode_roundtrip (_url _encode_url : Bytes) :
    ∃ text, urlEncode _url _encode_url = _encode_url ++ text ∧ formDecode text = some _url ∧
      ∀ c ∈ text, isPlain c = true ∨ c = 43 ∨ c = 37 := by
  refine ⟨_url.flatMap escaped, urlEncode_eq _ _, formDecode_flatMap _, fun c hc => ?_⟩
  obtain ⟨ch, -, h⟩ := List.mem_flatMap.mp hc
  exact escaped_alphabet h

end Strutil
