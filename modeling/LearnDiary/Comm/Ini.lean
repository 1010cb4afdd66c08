import LearnDiary.Comm.StringCast
import LearnDiary.Lib.SortedMap
import LearnDiary.Lib.Runs

/-!
# INI files (comm/ini.h)

The sections of an `INI` and what `Save` writes and `Parse` reads.  Assertions are switched off; a
file is its bytes, `none` where `fopen` fails; a result `none` is an access outside `line` or
`ssection`.

* `Named`          what every call keeps: the names in the maps are verified;
* `exec_named`     so over every run of calls;
* `parse_stored`   what a file gives fits in a line and in `ssection`.
-/

namespace Ini
open Runs

/-! ## names -/

/-- the loop body of `VerifyName` goes on -/
def nameChar (c : UInt8) : Bool :=
  (97 ≤ c && c ≤ 122) || (65 ≤ c && c ≤ 90) || (48 ≤ c && c ≤ 57) || c == 45 || c == 95 ||
    c == 46 || c == 32

def verifyName (_name : Bytes) : Bool := !_name.isEmpty && _name.all nameChar

/-- the set `%[.0-9a-zA-Z_ -]` -/
def scanSet (c : UInt8) : Bool :=
  c == 46 || (48 ≤ c && c ≤ 57) || (97 ≤ c && c ≤ 122) || (65 ≤ c && c ≤ 90) || c == 95 ||
    c == 32 || c == 45

/-! ## the maps -/

/-- the order of `std::string` -/
def strKey (s : Bytes) : List Nat := s.map UInt8.toNat

abbrev Keys := SortedMap Bytes Bytes strKey

abbrev Sections := SortedMap Bytes Keys strKey

structure INI where
  currentsection : Bytes := []
  sections : Sections := SortedMap.empty

def bufferSize : Nat := 4096

def select (ini : INI) (_section : Bytes) : Bool × INI :=
  if ¬ verifyName _section then (false, ini)
  else
    match ini.sections.find _section with
    | none => (false, ini)
    | some _ => (true, { ini with currentsection := _section })

def create (ini : INI) (_section : Bytes) : Bool × INI :=
  if ¬ verifyName _section then (false, ini)
  else
    match select ini _section with
    | (true, ini) => (false, ini)
    | (false, ini) =>
      (true, { currentsection := _section, sections := ini.sections.insert _section .empty })

/-- `sections[_section][key] = svalue` -/
def put (sections : Sections) (_section key svalue : Bytes) : Sections :=
  sections.set _section (((sections.find _section).getD .empty).set key svalue)

/-- `Set(section, key, value)`, with `svalue` for `string_cast(value).str()` -/
def set (ini : INI) (_section key svalue : Bytes) : Bool × INI :=
  if ¬ verifyName _section then (false, ini)
  else if ¬ verifyName key then (false, ini)
  else if bufferSize < key.length + svalue.length + 1 then (false, ini)
  else (true, { ini with sections := put ini.sections _section key svalue })

def setCurrent (ini : INI) (key svalue : Bytes) : Bool × INI :=
  set ini ini.currentsection key svalue

/-- `sections[_section].find(key)`, the section created where it is missing -/
def lookup (ini : INI) (_section key : Bytes) : Option Bytes × INI :=
  let sections := ini.sections.insert _section .empty
  (((sections.find _section).getD .empty).find key, { ini with sections := sections })

def get (ini : INI) (_section key deflt : Bytes) : Bytes × INI :=
  if ¬ verifyName _section then (deflt, ini)
  else if ¬ verifyName key then (deflt, ini)
  else
    let (keys, ini) := lookup ini _section key
    (keys.getD deflt, ini)

def getCurrent (ini : INI) (key deflt : Bytes) : Bytes × INI := get ini ini.currentsection key deflt

/-- `Get<V>` for an integer type -/
def getNumber (t : StringCast.CInt) (ini : INI) (_section key : Bytes) (deflt : Int) : Int × INI :=
  if ¬ verifyName _section then (deflt, ini)
  else if ¬ verifyName key then (deflt, ini)
  else
    let (keys, ini) := lookup ini _section key
    match keys with
    | none => (deflt, ini)
    | some second =>
      if second = [] then (deflt, ini)
      else
        let cast := StringCast.numberCast t (some (cstr second))
        (if cast.vaild_ then cast.toT t else deflt, ini)

def clear (_ini : INI) : INI := {}

def clearExceptSection (ini : INI) (_sectionName : Bytes) : INI :=
  { ini with sections := ini.sections.filter fun e => decide (e.1 = _sectionName) }

/-- `Sections()`, as far as the object itself goes -/
def resetCurrent (ini : INI) : INI := { ini with currentsection := [] }

/-! ## writing a file -/

def makeSection (_section : Bytes) : Bytes := 91 :: _section ++ [93, 10]

def makeKeyValue (key value : Bytes) : Bytes := key ++ 61 :: value ++ [10]

/-- what `Save` writes -/
def save (ini : INI) : Bytes :=
  ini.sections.entries.flatMap fun i =>
    if i.2.entries.length = 0 then []
    else makeSection i.1 ++ i.2.entries.flatMap fun j => makeKeyValue j.1 j.2

/-! ## reading a file -/

/-- what the calls of `fgets(line, BUFFER_SIZE, file)` return one after the other: up to a newline
or the room in `line`; `acc` is what the present call has read, `room` what it still may read -/
def fgets (room : Nat) (acc : Bytes) : Bytes → List Bytes
  | [] => if acc = [] then [] else [acc]
  | c :: rest =>
    if c = 10 ∨ room ≤ 1 then (acc ++ [c]) :: fgets (bufferSize - 1) [] rest
    else fgets (room - 1) (acc ++ [c]) rest

/-- `cur` and the sections -/
abbrev Parsing := Bytes × Sections

/-- `sscanf(line, "[%[.0-9a-zA-Z_ -]]", ssection)` for a line that begins with `[` -/
def scanSection (line : Bytes) : Int × Bytes :=
  let ssection := (line.drop 1).takeWhile scanSet
  (if line.length = 1 then -1 else if ssection = [] then 0 else 1, ssection)

/-- the line begins with `[` -/
def parseSection (p : Parsing) (line : Bytes) : Option Parsing :=
  let (ret, ssection) := scanSection line
  if 512 < ssection.length + 1 then none
  else if ret = 0 then some ([], p.2)
  else if ¬ verifyName ssection then some ([], p.2)
  else some (ssection, p.2.insert ssection .empty)

/-- any other line -/
def parseKey (p : Parsing) (line : Bytes) : Parsing :=
  let (cur, sections) := p
  if cur.length = 0 then p
  else
    match Find.find [61] line with
    | none => p
    | some token =>
      let skey := line.take token
      let svalue := line.drop (token + 1)
      if ¬ verifyName skey then p
      else (cur, put sections cur skey svalue)

/-- the loop body for what `fgets` has put into `line` -/
def parseLine (p : Parsing) (buffer : Bytes) : Option Parsing :=
  let line := cstr buffer
  if [47, 47] <+: line then some p
  else
    match line.getLast? with
    | none => none
    | some last =>
      let line := if last = 10 then line.dropLast else line
      if [91] <+: line then parseSection p line else some (parseKey p line)

/-- the result, and the object afterwards -/
def parse (ini : INI) (file : Option Bytes) : Option (Bool × INI) :=
  match file with
  | none => some (false, ini)
  | some file =>
    ((fgets (bufferSize - 1) [] file).foldlM parseLine ([], ini.sections)).map fun p =>
      (true, { ini with sections := p.2 })

/-- `INI(fileName)` -/
def open_ (file : Option Bytes) : Option INI := (parse {} file).map Prod.snd

/-! ## runs of calls -/

inductive Call where
  | create (_section : Bytes)
  | select (_section : Bytes)
  | set (_section key svalue : Bytes)
  | setCurrent (key svalue : Bytes)
  | get (_section key deflt : Bytes)
  | getCurrent (key deflt : Bytes)
  | getNumber (t : StringCast.CInt) (_section key : Bytes) (deflt : Int)
  | parse (file : Option Bytes)
  | clear
  | clearExceptSection (_sectionName : Bytes)
  | resetCurrent

def call (ini : INI) : Call → Option INI
  | .create s => some (create ini s).2
  | .select s => some (select ini s).2
  | .set s k v => some (set ini s k v).2
  | .setCurrent k v => some (setCurrent ini k v).2
  | .get s k d => some (get ini s k d).2
  | .getCurrent k d => some (getCurrent ini k d).2
  | .getNumber t s k d => some (getNumber t ini s k d).2
  | .parse file => (parse ini file).map Prod.snd
  | .clear => some (clear ini)
  | .clearExceptSection s => some (clearExceptSection ini s)
  | .resetCurrent => some (resetCurrent ini)

/-! ## what the maps hold -/

theorem strKey_inj {s t : Bytes} (h : strKey s = strKey t) : s = t :=
  List.map_injective_iff.mpr (fun _ _ => UInt8.toNat_inj.mp) h

/-- every section has `N`, every key with its value `V` -/
def Each (N : Bytes → Prop) (V : Bytes → Bytes → Prop) (s : Sections) : Prop :=
  ∀ i ∈ s.entries, N i.1 ∧ ∀ j ∈ i.2.entries, V j.1 j.2

section
variable {N : Bytes → Prop} {V : Bytes → Bytes → Prop} {s : Sections} {n k v : Bytes}

theorem each_empty : Each N V .empty := List.forall_mem_nil _

theorem Each.insert (h : Each N V s) (hn : N n) : Each N V (s.insert n .empty) :=
  SortedMap.forall_insert h ⟨hn, List.forall_mem_nil _⟩

theorem Each.put (h : Each N V s) (hn : N n) (hv : V k v) : Each N V (put s n k v) := by
  have hold : ∀ j ∈ ((s.find n).getD .empty).entries, V j.1 j.2 := by
    cases hf : s.find n with
    | none => exact List.forall_mem_nil _
    | some keys =>
      obtain ⟨e, he, -, rfl⟩ := SortedMap.mem_of_find hf
      exact (h e he).2
  refine SortedMap.forall_set h (fun a ha => ?_)
  rw [strKey_inj ha]
  refine ⟨hn, SortedMap.forall_set hold (fun b hb => ?_)⟩
  rw [strKey_inj hb]
  exact hv

theorem Each.filter (h : Each N V s) (p : Bytes × Keys → Bool) : Each N V (s.filter p) :=
  fun i hi => h i (List.mem_of_mem_filter hi)

theorem Each.mono {N' : Bytes → Prop} {V' : Bytes → Bytes → Prop} (h : Each N V s)
    (hN : ∀ n, N n → N' n) (hV : ∀ k v, V k v → V' k v) : Each N' V' s :=
  fun i hi => ⟨hN _ (h i hi).1, fun j hj => hV _ _ ((h i hi).2 j hj)⟩

end

/-- what `Set` lets in -/
def Allowed (key svalue : Bytes) : Prop :=
  verifyName key ∧ key.length + svalue.length + 1 ≤ bufferSize

/-- what a line of a file can hold -/
def InLine (key svalue : Bytes) : Prop :=
  verifyName key ∧ key.length + svalue.length + 1 < bufferSize ∧ 10 ∉ svalue ∧ 0 ∉ svalue

/-- what `ssection` can hold -/
def InBrackets (n : Bytes) : Prop := verifyName n ∧ n.length < 512

/-! ## lines of a file -/

/-- what one `fgets` can return -/
structure Line (l : Bytes) : Prop where
  pos : l ≠ []
  short : l.length < bufferSize
  ends : 10 ∉ l.dropLast

theorem fgets_line {room : Nat} {acc rest : Bytes} (hl : acc.length + room < bufferSize)
    (hn : 10 ∉ acc) (hr : 1 ≤ room) : ∀ l ∈ fgets room acc rest, Line l := by
  induction rest generalizing room acc with
  | nil =>
    intro l h
    unfold fgets at h
    split at h
    · cases h
    · rename_i hne
      cases List.mem_singleton.mp h
      exact ⟨hne, by omega, fun hm => hn (List.mem_of_mem_dropLast hm)⟩
  | cons c rest ih =>
    intro l h
    unfold fgets at h
    split at h
    · rcases List.mem_cons.mp h with rfl | h
      · refine ⟨List.append_ne_nil_of_right_ne_nil _ (List.cons_ne_nil _ _), ?_, ?_⟩
        · rw [List.length_append, List.length_singleton]
          omega
        · rw [List.dropLast_concat]
          exact hn
      · exact ih (by decide) (List.not_mem_nil) (by decide) l h
    · rename_i hc
      have hc' := not_or.mp hc
      refine ih ?_ ?_ (by omega) l h
      · rw [List.length_append, List.length_singleton]
        omega
      · intro hm
        rcases List.mem_append.mp hm with hm | hm
        · exact hn hm
        · exact hc'.1 (List.mem_singleton.mp hm).symm

section
variable {N : Bytes → Prop} {V : Bytes → Bytes → Prop} (hN : ∀ n, InBrackets n → N n)
  (hV : ∀ k v, InLine k v → V k v)

/-- what the loop of `Parse` keeps -/
def Kept (N : Bytes → Prop) (V : Bytes → Bytes → Prop) (p : Parsing) : Prop :=
  (p.1 = [] ∨ N p.1) ∧ Each N V p.2

include hN in
theorem kept_section {p q : Parsing} {line : Bytes} (h : Kept N V p)
    (hq : parseSection p line = some q) : Kept N V q := by
  unfold parseSection at hq
  dsimp only at hq
  split at hq
  · cases hq
  · rename_i hlen
    split at hq
    · cases hq
      exact ⟨Or.inl rfl, h.2⟩
    · split at hq
      · cases hq
        exact ⟨Or.inl rfl, h.2⟩
      · rename_i hv
        cases hq
        have hn : N (scanSection line).2 := hN _ ⟨not_not.mp hv, by omega⟩
        exact ⟨Or.inr hn, h.2.insert hn⟩

include hV in
theorem kept_key {p : Parsing} {line : Bytes} (h : Kept N V p) (h10 : 10 ∉ line) (h0 : 0 ∉ line)
    (hl : line.length < bufferSize) : Kept N V (parseKey p line) := by
  unfold parseKey
  dsimp only
  split
  · exact h
  · rename_i hcur
    split
    · exact h
    · rename_i token ht
      split
      · exact h
      · rename_i hv
        have hn : N p.1 := h.1.resolve_left fun e => hcur (by rw [e, List.length_nil])
        have hle := Find.find_add_le ht
        have hlen : (line.take token).length + (line.drop (token + 1)).length + 1 < bufferSize := by
          rw [List.length_take, List.length_drop]
          rw [List.length_singleton] at hle
          omega
        refine ⟨Or.inr hn, h.2.put hn (hV _ _ ⟨not_not.mp hv, hlen, ?_, ?_⟩)⟩
        · exact fun hm => h10 (List.mem_of_mem_drop hm)
        · exact fun hm => h0 (List.mem_of_mem_drop hm)

theorem prefix_dropLast {u l : Bytes} (h : u <+: l) : u.dropLast <+: l.dropLast := by
  obtain ⟨t, rfl⟩ := h
  rcases List.eq_nil_or_concat t with rfl | ⟨t', c, rfl⟩
  · rw [List.append_nil]
  · rw [List.concat_eq_append, ← List.append_assoc, List.dropLast_concat]
    exact (List.dropLast_prefix u).trans (List.prefix_append u t')

theorem no_newline {u : Bytes} {last : UInt8} (h : 10 ∉ u.dropLast) (hl : u.getLast? = some last) :
    10 ∉ (if last = 10 then u.dropLast else u) := by
  split
  · exact h
  · rename_i hne
    rw [← List.dropLast_append_getLast? last hl]
    intro hm
    rcases List.mem_append.mp hm with hm | hm
    · exact h hm
    · exact hne (List.mem_singleton.mp hm).symm

theorem cstr_no_nul (s : Bytes) : 0 ∉ cstr s := by
  intro hm
  have h := List.mem_takeWhile_imp hm
  exact absurd rfl (bne_iff_ne.mp h)

include hN hV in
theorem kept_line {p q : Parsing} {buffer : Bytes} (h : Kept N V p) (hb : Line buffer)
    (hq : parseLine p buffer = some q) : Kept N V q := by
  have h0 := cstr_no_nul buffer
  have hpre : cstr buffer <+: buffer := Find.upTo_isPrefix _ buffer
  unfold parseLine at hq
  dsimp only at hq
  split at hq
  · cases hq
    exact h
  · split at hq
    · cases hq
    · rename_i last hlast
      have hsub : (if last = 10 then (cstr buffer).dropLast else cstr buffer) <+: cstr buffer := by
        split
        · exact List.dropLast_prefix _
        · exact List.prefix_refl _
      have h10 := no_newline (fun hm => hb.ends ((prefix_dropLast hpre).subset hm)) hlast
      have hlen : (if last = 10 then (cstr buffer).dropLast else cstr buffer).length < bufferSize :=
        lt_of_le_of_lt (hsub.trans hpre).length_le hb.short
      generalize (if last = 10 then (cstr buffer).dropLast else cstr buffer) = line at *
      split at hq
      · exact kept_section hN h hq
      · cases hq
        exact kept_key hV h h10 (fun hm => h0 (hsub.subset hm)) hlen

include hN hV in
theorem kept_lines {p q : Parsing} {lines : List Bytes} (h : Kept N V p)
    (hl : ∀ l ∈ lines, Line l) (hq : lines.foldlM parseLine p = some q) : Kept N V q := by
  induction lines generalizing p with
  | nil =>
    cases hq
    exact h
  | cons l lines ih =>
    obtain ⟨r, hr, hq⟩ := Option.bind_eq_some_iff.mp hq
    exact ih (kept_line hN hV h (hl l List.mem_cons_self) hr)
      (fun m hm => hl m (List.mem_cons_of_mem _ hm)) hq

include hN hV in
theorem each_parse {ini ini' : INI} {file : Option Bytes} {b : Bool} (h : Each N V ini.sections)
    (hp : parse ini file = some (b, ini')) :
    Each N V ini'.sections ∧ ini'.currentsection = ini.currentsection := by
  cases file with
  | none =>
    cases hp
    exact ⟨h, rfl⟩
  | some file =>
    obtain ⟨q, hq, he⟩ := Option.map_eq_some_iff.mp hp
    cases he
    have hlines : ∀ l ∈ fgets (bufferSize - 1) [] file, Line l :=
      fgets_line (by decide) List.not_mem_nil (by decide)
    exact ⟨(kept_lines hN hV ⟨Or.inl rfl, h⟩ hlines hq).2, rfl⟩

end

/-! ## runs -/

structure Named (ini : INI) : Prop where
  current : ini.currentsection = [] ∨ verifyName ini.currentsection
  sections : Each (fun n => verifyName n) Allowed ini.sections

section
variable {ini : INI} (h : Named ini)
include h

theorem named_select (s : Bytes) : Named (select ini s).2 := by
  unfold select
  split
  · exact h
  · rename_i hv
    split
    · exact h
    · exact ⟨Or.inr (not_not.mp hv), h.sections⟩

theorem named_create (s : Bytes) : Named (create ini s).2 := by
  have hs := named_select h s
  unfold create
  split
  · exact h
  · rename_i hv
    cases hsel : select ini s with
    | mk b ini' =>
      rw [hsel] at hs
      cases b with
      | true => exact hs
      | false => exact ⟨Or.inr (not_not.mp hv), hs.sections.insert (not_not.mp hv)⟩

theorem named_set (s k v : Bytes) : Named (set ini s k v).2 := by
  unfold set
  split
  · exact h
  · rename_i hs
    split
    · exact h
    · rename_i hk
      split
      · exact h
      · rename_i hl
        exact ⟨h.current, h.sections.put (not_not.mp hs) ⟨not_not.mp hk, not_lt.mp hl⟩⟩

theorem named_lookup {s : Bytes} (hs : verifyName s) (k : Bytes) : Named (lookup ini s k).2 :=
  ⟨h.current, h.sections.insert hs⟩

theorem named_get (s k d : Bytes) : Named (get ini s k d).2 := by
  unfold get
  split
  · exact h
  · rename_i hs
    split
    · exact h
    · exact named_lookup h (not_not.mp hs) k

theorem named_getNumber (t : StringCast.CInt) (s k : Bytes) (d : Int) :
    Named (getNumber t ini s k d).2 := by
  unfold getNumber
  split
  · exact h
  · rename_i hs
    have hn := named_lookup h (not_not.mp hs) k
    split
    · exact h
    · dsimp only
      split
      · exact hn
      · split
        · exact hn
        · exact hn

theorem named_parse {ini' : INI} {file : Option Bytes} {b : Bool}
    (hp : parse ini file = some (b, ini')) : Named ini' := by
  obtain ⟨hs, hc⟩ := each_parse (N := fun n => verifyName n) (V := Allowed) (fun _ hn => hn.1)
    (fun _ _ hv => ⟨hv.1, hv.2.1.le⟩) h.sections hp
  exact ⟨by rw [hc]; exact h.current, hs⟩

theorem named_call {ini' : INI} {c : Call} (hc : call ini c = some ini') : Named ini' := by
  cases c with
  | create s => cases hc; exact named_create h s
  | select s => cases hc; exact named_select h s
  | set s k v => cases hc; exact named_set h s k v
  | setCurrent k v => cases hc; exact named_set h _ k v
  | get s k d => cases hc; exact named_get h s k d
  | getCurrent k d => cases hc; exact named_get h _ k d
  | getNumber t s k d => cases hc; exact named_getNumber h t s k d
  | parse file =>
    obtain ⟨⟨b, i⟩, hp, rfl⟩ := Option.map_eq_some_iff.mp hc
    exact named_parse h hp
  | clear =>
    cases hc
    exact ⟨Or.inl rfl, each_empty⟩
  | clearExceptSection s =>
    cases hc
    exact ⟨h.current, h.sections.filter _⟩
  | resetCurrent =>
    cases hc
    exact ⟨Or.inl rfl, h.sections⟩

end

theorem named_run {ini : INI} (h : AnyRun call {} ini) : Named ini :=
  h.keep (fun _ _ _ hn _ hc => named_call hn hc) ⟨Or.inl rfl, each_empty⟩

/-- what a file gives has names, fits in `ssection` and in a line -/
theorem stored_open {ini : INI} {file : Option Bytes} (h : open_ file = some ini) :
    Each InBrackets InLine ini.sections := by
  obtain ⟨⟨b, i⟩, hp, rfl⟩ := Option.map_eq_some_iff.mp h
  exact (each_parse (fun _ hn => hn) (fun _ _ hv => hv) each_empty hp).1

end Ini
