import LearnDiary.Lib.SortedMap
import Mathlib.Data.List.Lex
import LearnDiary.Http.Lines

/-!
# Header fields (comm/http.cc)

`std::map` with `strcasecmp` as its order is a `SortedMap` over the lower-case letters of the C
string; `insert` keeps the entry that is there.

* `findC_crlf2_lines`        the header end stands behind the lines and nowhere before;
* `parserHeaders_toString`   `__ParserHeaders` reads back what `ToString` prints for well-formed
  fields;
* `headerFiled_eq_self`      inserting a field changes nothing exactly when the name is there.
-/

namespace Http

/-- `strcasecmp` compares these -/
def ciKey (s : Bytes) : List Nat := (cstr s).map (fun c => (tolower c).toNat)

abbrev Headers := SortedMap Bytes Bytes ciKey

structure HeaderFields where
  headers_ : Headers := SortedMap.empty

namespace HeaderFields

def kStringContentLength : Bytes := ascii "Content-Length"
def kStringTransferEncoding : Bytes := ascii "Transfer-Encoding"
def kStringChunked : Bytes := ascii "chunked"

/-- `HeaderFiled(const char*, const char*)` -/
def headerFiled (f : HeaderFields) (_name _value : Bytes) : HeaderFields :=
  ⟨f.headers_.insert _name _value⟩

/-- `HeaderField(const char*)` -/
def headerField (f : HeaderFields) (_key : Bytes) : Option Bytes := (f.headers_.find _key).map cstr

def isTransferEncodingChunked (f : HeaderFields) : Bool :=
  match f.headerField kStringTransferEncoding with
  | some transferEncoding => decide (ciKey transferEncoding = ciKey kStringChunked)
  | none => false

def contentLength (f : HeaderFields) : Int :=
  match f.headerField kStringContentLength with
  | some strContentLength => toInt32 (strtol 10 strContentLength)
  | none => 0

/-- `snprintf` into 16 bytes keeps 15 of them -/
def makeContentLength (_len : Int) : Bytes × Bytes :=
  (kStringContentLength, (printInt _len).take 15)

def makeTransferEncodingChunked : Bytes × Bytes := (kStringTransferEncoding, kStringChunked)

def line (e : Bytes × Bytes) : Bytes := e.1 ++ colon ++ space ++ e.2

def toString (f : HeaderFields) : Bytes := f.headers_.entries.flatMap (fun e => line e ++ crlf)

/-! ## `__ParserHeaders` -/

/-- one header line: name and value, when it has them.  Without a colon `nameend` is `npos`,
`nameend + 1` wraps to 0, and name and value are both the whole line. -/
def parseLine (line : Bytes) : Option (Bytes × Bytes) :=
  if line.all (· == 58) then none
  else
    match line.findIdx? (· == 58) with
    | some nameend =>
      if line.length > nameend + 1 then
        some (cstr (trim (line.take nameend)), cstr (trim (line.drop (nameend + 1))))
      else none
    | none => if line.length > 0 then some (cstr (trim line), cstr (trim line)) else none

def addLine (f : HeaderFields) (line : Bytes) : HeaderFields :=
  match parseLine line with
  | some (name, value) => f.headerFiled name value
  | none => f

/-- the loop over the lines of `s`, the text from `linebegin` on; a line end has two bytes, so the
length of the text bounds the loop -/
def parseLines : Nat → Bytes → HeaderFields → HeaderFields
  | 0, _, f => f
  | fuel + 1, s, f =>
    match Find.find crlf s with
    | none => f
    | some lineend => parseLines fuel (s.drop (lineend + 2)) (f.addLine (s.take lineend))

/-- it always returns true -/
def parserHeaders (_strHeaders : Bytes) (_headers : HeaderFields) : Bool × HeaderFields :=
  (true, parseLines (_strHeaders.length + 1) _strHeaders _headers)

/-! ## printed fields -/

/-- a name without a colon, neither name nor value with a line end, a NUL or outer blanks -/
structure FieldOk (e : Bytes × Bytes) : Prop where
  name : ∀ c ∈ e.1, LineByte c ∧ c ≠ 58
  name_trim : trim e.1 = e.1
  value : ∀ c ∈ e.2, LineByte c
  value_trim : trim e.2 = e.2

instance (e : Bytes × Bytes) : Decidable (FieldOk e) :=
  haveI : Decidable (∀ c ∈ e.1, LineByte c ∧ c ≠ 58) := List.decidableBAll _ _
  haveI : Decidable (∀ c ∈ e.2, LineByte c) := List.decidableBAll _ _
  decidable_of_iff ((∀ c ∈ e.1, LineByte c ∧ c ≠ 58) ∧ trim e.1 = e.1 ∧ (∀ c ∈ e.2, LineByte c) ∧
      trim e.2 = e.2)
    ⟨fun h => ⟨h.1, h.2.1, h.2.2.1, h.2.2.2⟩, fun h => ⟨h.1, h.2, h.3, h.4⟩⟩

def WellFormed (f : HeaderFields) : Prop := ∀ e ∈ f.headers_.entries, FieldOk e

instance (f : HeaderFields) : Decidable f.WellFormed := List.decidableBAll _ _

theorem line_eq (e : Bytes × Bytes) : line e = e.1 ++ (58 :: 32 :: e.2) := by
  simp [line, colon, space]

theorem line_bytes {e : Bytes × Bytes} (h : FieldOk e) : ∀ c ∈ line e, LineByte c := by
  intro c hc
  rw [line_eq] at hc
  simp only [List.mem_append, List.mem_cons] at hc
  rcases hc with hc | rfl | rfl | hc
  · exact (h.name c hc).1
  · decide
  · decide
  · exact h.value c hc

theorem cstr_of_bytes {s : Bytes} (h : ∀ c ∈ s, LineByte c) : cstr s = s :=
  Find.upTo_eq_self notNul (fun c hc => notNul_of_lineByte (h c hc))

theorem trim_space (s : Bytes) : trim (32 :: s) = trim s := by
  unfold trim
  rw [List.dropWhile_cons_of_pos (by decide)]

theorem parseLine_line {e : Bytes × Bytes} (h : FieldOk e) : parseLine (line e) = some e := by
  have hidx : (line e).findIdx? (· == 58) = some e.1.length := by
    rw [line_eq, List.findIdx?_append]
    have hnone : e.1.findIdx? (· == 58) = none :=
      List.findIdx?_eq_none_iff.mpr (fun c hc => by simpa using (h.name c hc).2)
    simp [hnone, List.findIdx?_cons]
  have hlen : (line e).length > e.1.length + 1 := by
    rw [line_eq, List.length_append, List.length_cons, List.length_cons]
    omega
  have hname : (line e).take e.1.length = e.1 := by rw [line_eq, List.take_left]
  have hvalue : (line e).drop (e.1.length + 1) = 32 :: e.2 := by
    rw [line_eq, ← List.drop_drop, List.drop_left]
    rfl
  unfold parseLine
  rw [if_neg (by rw [line_eq]; simp), hidx]
  simp only
  rw [if_pos hlen, hname, hvalue, trim_space, h.name_trim, h.value_trim,
    cstr_of_bytes (fun c hc => (h.name c hc).1), cstr_of_bytes h.value]

/-! ## lines of a header -/

/-- a line that is not empty, without CR and NUL -/
def HeaderLine (t : Bytes) : Prop := t ≠ [] ∧ ∀ c ∈ t, LineByte c

instance (t : Bytes) : Decidable (HeaderLine t) :=
  haveI : Decidable (∀ c ∈ t, LineByte c) := List.decidableBAll _ _
  inferInstanceAs (Decidable (_ ∧ _))

def lines (ls : List Bytes) : Bytes := ls.flatMap (fun t => t ++ crlf)

theorem lines_cons (t : Bytes) (ls : List Bytes) : lines (t :: ls) = t ++ (crlf ++ lines ls) := by
  simp [lines]

theorem toString_eq (f : HeaderFields) : f.toString = lines (f.headers_.entries.map line) := by
  unfold toString lines
  rw [List.flatMap_map]

theorem headerLine_line {e : Bytes × Bytes} (h : FieldOk e) : HeaderLine (line e) :=
  ⟨by rw [line_eq]; simp, line_bytes h⟩

theorem WellFormed.lines {f : HeaderFields} (h : f.WellFormed) :
    ∀ t ∈ f.headers_.entries.map line, HeaderLine t := by
  intro t ht
  obtain ⟨e, he, rfl⟩ := List.mem_map.mp ht
  exact headerLine_line (h e he)

theorem parseLines_lines {l : List (Bytes × Bytes)} (hl : ∀ e ∈ l, FieldOk e) {fuel : Nat}
    (hf : l.length < fuel) (f : HeaderFields) :
    parseLines fuel (lines (l.map line) ++ crlf) f = ⟨f.headers_.ofList l⟩ := by
  induction l generalizing fuel f with
  | nil =>
    cases fuel with
    | zero => exact absurd hf (Nat.not_lt_zero _)
    | succ fuel => cases fuel <;> rfl
  | cons e l ih =>
    cases fuel with
    | zero => exact absurd hf (Nat.not_lt_zero _)
    | succ fuel =>
      have he := hl e List.mem_cons_self
      have ht : lines ((e :: l).map line) ++ crlf
          = line e ++ (crlf ++ (lines (l.map line) ++ crlf)) := by
        rw [List.map_cons, lines_cons]
        simp
      have hadd : f.addLine (line e) = f.headerFiled e.1 e.2 := by
        unfold addLine
        rw [parseLine_line he]
      have hdrop : (line e ++ (crlf ++ (lines (l.map line) ++ crlf))).drop ((line e).length + 2)
          = lines (l.map line) ++ crlf := by
        rw [← List.drop_drop, List.drop_left]
        rfl
      unfold parseLines
      rw [ht, find_crlf_line (line_bytes he)]
      simp only
      rw [hdrop, List.take_left, hadd,
        ih (fun a ha => hl a (List.mem_cons_of_mem _ ha)) (Nat.lt_of_succ_lt_succ hf)]
      rfl

theorem length_le_lines (ls : List Bytes) : ls.length ≤ (lines ls).length := by
  induction ls with
  | nil => exact Nat.le_refl _
  | cons t ls ih =>
    rw [lines_cons, List.length_append, List.length_append, List.length_cons]
    have : crlf.length = 2 := rfl
    omega

/-- **`__ParserHeaders` reads back what `ToString` prints.** -/
theorem parserHeaders_toString {f : HeaderFields} (h : f.WellFormed) :
    parserHeaders (f.toString ++ crlf) {} = (true, f) := by
  have hlen : f.headers_.entries.length < (f.toString ++ crlf).length + 1 := by
    have := length_le_lines (f.headers_.entries.map line)
    rw [List.length_map] at this
    rw [List.length_append, toString_eq]
    omega
  unfold parserHeaders
  rw [toString_eq] at hlen ⊢
  rw [parseLines_lines h hlen]
  exact congrArg (Prod.mk true) (congrArg HeaderFields.mk (SortedMap.ofList_entries f.headers_))

/-! ## the header end -/

theorem find_crlf2_next {s : Bytes} (h : s.head? ≠ some 13) :
    Find.find crlf2 (crlf ++ s) = (Find.find crlf2 s).map (· + 2) := by
  have h0 : ¬ crlf2 <+: 13 :: 10 :: s := by
    intro hp
    cases s with
    | nil => exact absurd hp.length_le (by decide)
    | cons c s =>
      have h1 := (List.cons_prefix_cons.mp (List.cons_prefix_cons.mp hp).2).2
      exact h (by rw [(List.cons_prefix_cons.mp h1).1]; rfl)
  have h1 : ¬ crlf2 <+: 10 :: s := fun hp => absurd (List.cons_prefix_cons.mp hp).1 (by decide)
  show Find.find crlf2 (13 :: 10 :: s) = _
  rw [Find.find_cons h0, Find.find_cons h1, Option.map_map]
  rfl

theorem lines_head {ls : List Bytes} (hl : ∀ t ∈ ls, HeaderLine t) (hne : ls ≠ []) (s : Bytes) :
    (lines ls ++ s).head? ≠ some 13 := by
  obtain ⟨t, ls', rfl⟩ := List.exists_cons_of_ne_nil hne
  obtain ⟨ht, hbytes⟩ := hl t List.mem_cons_self
  obtain ⟨c, t', rfl⟩ := List.exists_cons_of_ne_nil ht
  rw [lines_cons]
  intro e13
  exact (hbytes c List.mem_cons_self).1 (Option.some.inj e13)

theorem find_crlf2_lines {ls : List Bytes} (hl : ∀ t ∈ ls, HeaderLine t) (hne : ls ≠ [])
    (s : Bytes) :
    ∃ k, Find.find crlf2 (lines ls ++ (crlf ++ s)) = some k ∧ k + 2 = (lines ls).length := by
  induction ls with
  | nil => exact absurd rfl hne
  | cons t ls ih =>
    have hc : (13 : UInt8) ∉ t := fun hm => ((hl t List.mem_cons_self).2 13 hm).1 rfl
    have hskip : Find.find [13, 10, 13, 10] (t ++ (crlf ++ (lines ls ++ (crlf ++ s)))) =
        (Find.find [13, 10, 13, 10] (crlf ++ (lines ls ++ (crlf ++ s)))).map (· + t.length) :=
      Find.find_skip hc _
    have ht : lines (t :: ls) ++ (crlf ++ s) = t ++ (crlf ++ (lines ls ++ (crlf ++ s))) := by
      rw [lines_cons]
      simp
    have hlen : (lines (t :: ls)).length = t.length + ((lines ls).length + 2) := by
      rw [lines_cons, List.length_append, List.length_append]
      have : crlf.length = 2 := rfl
      omega
    rw [ht]
    change ∃ k, Find.find (13 :: [10, 13, 10]) _ = some k ∧ _
    rw [hskip]
    rcases List.eq_nil_or_concat ls with rfl | hcons
    · exact ⟨t.length, by
        rw [show crlf ++ (lines [] ++ (crlf ++ s)) = (13 :: [10, 13, 10]) ++ s from rfl,
          Find.find_self]
        simp, by rw [hlen]; rfl⟩
    · have hls : ls ≠ [] := by
        obtain ⟨a, b, rfl⟩ := hcons
        simp
      have hl' : ∀ u ∈ ls, HeaderLine u := fun u hu => hl u (List.mem_cons_of_mem _ hu)
      obtain ⟨k, hk, hk2⟩ := ih hl' hls
      have hnext := find_crlf2_next (lines_head hl' hls (crlf ++ s))
      refine ⟨k + 2 + t.length, ?_, by omega⟩
      show (Find.find crlf2 _).map _ = _
      rw [hnext, hk]
      rfl

theorem lines_notNul {ls : List Bytes} (hl : ∀ t ∈ ls, HeaderLine t) :
    ∀ c ∈ lines ls ++ crlf, notNul c = true := by
  intro c hc
  rcases List.mem_append.mp hc with hc | hc
  · obtain ⟨t, ht, hc⟩ := List.mem_flatMap.mp hc
    rcases List.mem_append.mp hc with hc | hc
    · exact notNul_of_lineByte ((hl t ht).2 c hc)
    · exact crlf_notNul c hc
  · exact crlf_notNul c hc

/-- **The header end stands behind the lines.** -/
theorem findC_crlf2_lines {ls : List Bytes} (hl : ∀ t ∈ ls, HeaderLine t) (hne : ls ≠ [])
    (s : Bytes) :
    ∃ k, findC crlf2 (lines ls ++ (crlf ++ s)) = some k ∧ k + 2 = (lines ls).length := by
  obtain ⟨k, hk, hk2⟩ := find_crlf2_lines hl hne (Find.upTo notNul s)
  refine ⟨k, ?_, hk2⟩
  have hup : Find.upTo notNul (lines ls ++ (crlf ++ s))
      = lines ls ++ (crlf ++ Find.upTo notNul s) := by
    rw [← List.append_assoc, ← List.append_assoc]
    exact List.takeWhile_append_of_pos (lines_notNul hl)
  show Find.find crlf2 (Find.upTo notNul (lines ls ++ (crlf ++ s))) = some k
  rw [hup]
  exact hk

/-! ## a field that is there -/

theorem headerFiled_eq_self (f : HeaderFields) (_name _value : Bytes) :
    f.headerFiled _name _value = f ↔ (f.headerField _name).isSome = true := by
  unfold headerField
  rw [Option.isSome_map]
  constructor
  · intro h
    have h1 := SortedMap.find_insert f.headers_ _name _value
    rwa [show f.headers_.insert _name _value = f.headers_ from congrArg headers_ h] at h1
  · exact fun h => congrArg HeaderFields.mk (SortedMap.insert_of_find _value h)

end HeaderFields

end Http
