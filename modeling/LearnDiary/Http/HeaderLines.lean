import LearnDiary.Http.Fields
import Mathlib.Data.List.Infix

/-!
# The lines of a header block (comm/http.cc)

`__ParserHeaders` takes each line that ends with CRLF.  A line without a colon, and one that begins with
a colon, come in as fields too: `nameend` is `npos` or 0 there, and the arithmetic goes on.

* `Block`, `exists_block`  a text as its lines and what stands behind the last line end;
* `parserHeaders_block`    the loop goes through the lines;
* `addLine_iff`            when a line comes in as the field it is;
* `parserHeaders_iff`      when every line of a block does.
-/

namespace Http
namespace HeaderFields

/-! ## blocks -/

/-- the lines that end with CRLF, and the rest of the text -/
structure Block where
  lines : List Bytes
  rest : Bytes
  line_end : ∀ t ∈ lines, ¬ crlf <:+: t
  no_end : ¬ crlf <:+: rest

def Block.text (b : Block) : Bytes := HeaderFields.lines b.lines ++ b.rest

theorem find_end {t : Bytes} (h : ¬ crlf <:+: t) (s : Bytes) :
    Find.find crlf (t ++ (crlf ++ s)) = some t.length := by
  refine Find.find_eq_some ?_ ?_ ?_
  · rw [List.length_append]
    omega
  · rw [List.drop_left]
    exact List.prefix_append _ _
  · intro q hq hp
    by_cases hlt : q + crlf.length ≤ t.length
    · exact h ((Find.prefix_drop_of_append hlt hp).isInfix.trans (List.drop_suffix q t).isInfix)
    · -- the CR would be the last byte of the line, and the next one is a CR again
      have h2 : crlf.length = 2 := rfl
      obtain ⟨u, hu⟩ := hp
      have hlf := congrArg (fun l : Bytes => l[1]?) hu
      simp only [List.getElem?_drop] at hlf
      rw [List.getElem?_append_left (by decide), List.getElem?_append_right (by omega),
        show q + 1 - t.length = 0 by omega] at hlf
      exact absurd (Option.some.inj hlf) (by decide)

theorem exists_block (s : Bytes) : ∃ b : Block, b.text = s := by
  induction hn : s.length using Nat.strong_induction_on generalizing s with
  | _ n ih =>
    cases e : Find.find crlf s with
    | none =>
      exact ⟨⟨[], s, fun t ht => absurd ht List.not_mem_nil, Find.find_none_iff.mp e⟩, rfl⟩
    | some k =>
      have h2 : crlf.length = 2 := rfl
      have hk := Find.find_add_le e
      obtain ⟨hp, hmin⟩ := Find.find_spec e
      obtain ⟨b, hb⟩ := ih (s.length - (k + 2)) (by omega) (s.drop (k + 2)) (List.length_drop)
      have hline : ¬ crlf <:+: s.take k := by
        rintro ⟨u, v, huv⟩
        have hlen := congrArg List.length huv
        simp only [List.length_append, List.length_take] at hlen
        refine hmin u.length (by omega) ?_
        rw [← List.take_append_drop k s, ← huv, List.append_assoc, List.append_assoc, List.drop_left]
        exact List.prefix_append _ _
      have hsplit : s = s.take k ++ (crlf ++ s.drop (k + 2)) := by
        obtain ⟨v, hv⟩ := hp
        have hrest : s.drop (k + 2) = v := by
          rw [← List.drop_drop, ← hv]
          exact List.drop_left' rfl
        rw [hrest, hv, List.take_append_drop]
      refine ⟨⟨s.take k :: b.lines, b.rest, ?_, b.no_end⟩, ?_⟩
      · intro t ht
        rcases List.mem_cons.mp ht with rfl | ht
        · exact hline
        · exact b.line_end t ht
      · unfold Block.text at hb ⊢
        rw [lines_cons, List.append_assoc, List.append_assoc, hb]
        exact hsplit.symm

theorem parseLines_lines_rest {ls : List Bytes} (hl : ∀ t ∈ ls, ¬ crlf <:+: t) {rest : Bytes}
    (hrest : ¬ crlf <:+: rest) {fuel : Nat} (hf : ls.length < fuel) (f : HeaderFields) :
    parseLines fuel (lines ls ++ rest) f = ls.foldl addLine f := by
  induction ls generalizing fuel f with
  | nil =>
    cases fuel with
    | zero => exact absurd hf (Nat.not_lt_zero _)
    | succ fuel =>
      unfold parseLines
      rw [show lines [] ++ rest = rest from rfl, Find.find_none_iff.mpr hrest]
      rfl
  | cons t ls ih =>
    cases fuel with
    | zero => exact absurd hf (Nat.not_lt_zero _)
    | succ fuel =>
      have htext : lines (t :: ls) ++ rest = t ++ (crlf ++ (lines ls ++ rest)) := by
        rw [lines_cons, List.append_assoc, List.append_assoc]
      have hdrop : (t ++ (crlf ++ (lines ls ++ rest))).drop (t.length + 2) = lines ls ++ rest := by
        rw [← List.drop_drop, List.drop_left]
        rfl
      unfold parseLines
      rw [htext, find_end (hl t List.mem_cons_self)]
      simp only
      rw [hdrop, List.take_left]
      exact ih (fun a ha => hl a (List.mem_cons_of_mem _ ha)) (Nat.lt_of_succ_lt_succ hf) _

theorem parserHeaders_block (b : Block) (f : HeaderFields) :
    parserHeaders b.text f = (true, b.lines.foldl addLine f) := by
  unfold parserHeaders Block.text
  have hlen := length_le_lines b.lines
  rw [parseLines_lines_rest b.line_end b.no_end (by rw [List.length_append]; omega)]

/-! ## lines -/

/-- name and value of a field line: a name that is not empty in front of the first colon, and something
behind it -/
def fieldOf (line : Bytes) : Option (Bytes × Bytes) :=
  match line.findIdx? (· == 58) with
  | some i =>
    if 0 < i ∧ i + 1 < line.length then some (trim (line.take i), trim (line.drop (i + 1))) else none
  | none => none

/-- a field line inserts its field, and no other line anything -/
def insertField (f : HeaderFields) (line : Bytes) : HeaderFields :=
  match fieldOf line with
  | some (name, value) => f.headerFiled name value
  | none => f

/-- the name under which a line comes in that is no field line: all of it without a colon, and nothing
with the colon in front -/
def strayName (line : Bytes) : Option Bytes :=
  if line.all (· == 58) then none
  else if 58 ∉ line then some (cstr (trim line))
  else if line.head? = some 58 then some []
  else none

/-- a field line without NUL, or a line that comes in under no name; or there is a field of that name -/
def Clean (f : HeaderFields) (line : Bytes) : Prop :=
  (∀ name value, fieldOf line = some (name, value) →
    0 ∉ name ∧ 0 ∉ value ∨ (f.headerField name).isSome = true) ∧
  ∀ name, strayName line = some name → (f.headerField name).isSome = true

theorem cstr_eq_self_iff (s : Bytes) : cstr s = s ↔ 0 ∉ s := by
  unfold cstr
  constructor
  · intro h hm
    have := List.takeWhile_eq_self_iff.mp h 0 hm
    exact absurd this (by decide)
  · intro h
    refine Find.upTo_eq_self notNul (fun c hc => ?_)
    have hne : c ≠ 0 := fun e => h (e ▸ hc)
    simp [notNul, hne]

theorem cstr_cstr (s : Bytes) : cstr (cstr s) = cstr s := by
  exact Find.upTo_eq_self notNul (fun c hc => List.mem_takeWhile_imp hc)

theorem headerField_cstr (f : HeaderFields) (name : Bytes) :
    f.headerField (cstr name) = f.headerField name := by
  have hkey : ciKey (cstr name) = ciKey name := by
    unfold ciKey
    rw [cstr_cstr]
  unfold headerField SortedMap.find
  rw [hkey]

theorem parseLine_cases (line : Bytes) :
    (∃ name value, fieldOf line = some (name, value) ∧ strayName line = none ∧
      parseLine line = some (cstr name, cstr value)) ∨
    fieldOf line = none ∧
      (parseLine line = none ∧ strayName line = none ∨
        ∃ name value, parseLine line = some (name, value) ∧ strayName line = some name) := by
  by_cases hall : line.all (· == 58) = true
  · refine Or.inr ⟨?_, Or.inl ⟨if_pos hall, if_pos hall⟩⟩
    unfold fieldOf
    cases line with
    | nil => rfl
    | cons c t =>
      have hc : (c == 58) = true := List.all_eq_true.mp hall c List.mem_cons_self
      rw [List.findIdx?_cons, if_pos hc]
      rfl
  · have hstray : strayName line = if 58 ∉ line then some (cstr (trim line))
        else if line.head? = some 58 then some [] else none := if_neg hall
    unfold parseLine fieldOf
    rw [if_neg hall, hstray]
    cases e : line.findIdx? (· == 58) with
    | none =>
      -- no colon: name and value are the whole line
      have hnot : 58 ∉ line := fun hm => by
        have := List.findIdx?_eq_none_iff.mp e 58 hm
        exact absurd this (by decide)
      have hlen : line.length > 0 := List.length_pos_iff.mpr fun h => hall (by rw [h]; rfl)
      refine Or.inr ⟨rfl, Or.inr ⟨_, _, if_pos hlen, if_pos hnot⟩⟩
    | some i =>
      obtain ⟨hi, hcolon, hmin⟩ := List.findIdx?_eq_some_iff_getElem.mp e
      have hmem : ¬ 58 ∉ line := not_not_intro (by
        have := List.getElem_mem hi
        rwa [beq_iff_eq.mp hcolon] at this)
      rw [if_neg hmem]
      dsimp only
      cases i with
      | zero =>
        -- the colon in front: the name is empty
        have hhead : line.head? = some 58 := by
          rw [List.head?_eq_getElem?, List.getElem?_eq_getElem hi, beq_iff_eq.mp hcolon]
        have hlen : line.length > 0 + 1 := by
          by_contra hle
          obtain ⟨t, rfl⟩ := List.head?_eq_some_iff.mp hhead
          have hnil : t = [] := List.eq_nil_of_length_eq_zero (by rw [List.length_cons] at hle; omega)
          exact hall (by rw [hnil]; rfl)
        rw [if_pos hlen, if_pos hhead, if_neg (fun h => Nat.lt_irrefl 0 h.1)]
        exact Or.inr ⟨rfl, Or.inr ⟨_, _, rfl, rfl⟩⟩
      | succ i =>
        have hhead : line.head? ≠ some 58 := by
          intro hhead
          have h0 := hmin 0 (Nat.succ_pos i)
          rw [List.head?_eq_getElem?, List.getElem?_eq_getElem (by omega)] at hhead
          rw [Option.some.inj hhead] at h0
          exact h0 rfl
        rw [if_neg hhead]
        by_cases hlen : line.length > i + 1 + 1
        · rw [if_pos hlen, if_pos ⟨Nat.succ_pos i, hlen⟩]
          exact Or.inl ⟨_, _, rfl, rfl, rfl⟩
        · rw [if_neg hlen, if_neg (fun h => hlen h.2)]
          exact Or.inr ⟨rfl, Or.inl ⟨rfl, rfl⟩⟩

theorem headerFiled_inj {f : HeaderFields} {name value name' value' : Bytes}
    (hkey : ciKey name' = ciKey name) (hnone : ¬ (f.headerField name).isSome = true)
    (h : f.headerFiled name' value' = f.headerFiled name value) : name' = name ∧ value' = value := by
  unfold headerField at hnone
  rw [Option.isSome_map] at hnone
  exact SortedMap.insert_inj hkey hnone (congrArg headers_ h)

/-- **A line comes in as the field it is**, and no other line at all, exactly when it is clean. -/
theorem addLine_iff (f : HeaderFields) (line : Bytes) :
    f.addLine line = f.insertField line ↔ Clean f line := by
  unfold addLine insertField Clean
  rcases parseLine_cases line with ⟨name, value, hfield, hstray, hparse⟩ |
    ⟨hfield, ⟨hparse, hstray⟩ | ⟨name, value, hparse, hstray⟩⟩
  · rw [hfield, hstray, hparse]
    simp only
    constructor
    · intro h
      refine ⟨fun name' value' hf => ?_, fun n hn => by cases hn⟩
      cases hf
      by_cases hsome : (f.headerField name).isSome = true
      · exact Or.inr hsome
      · have hkey : ciKey (cstr name) = ciKey name := by
          unfold ciKey
          rw [cstr_cstr]
        obtain ⟨h1, h2⟩ := headerFiled_inj hkey hsome h
        exact Or.inl ⟨(cstr_eq_self_iff name).mp h1, (cstr_eq_self_iff value).mp h2⟩
    · rintro ⟨h, -⟩
      rcases h name value rfl with ⟨h1, h2⟩ | hsome
      · rw [(cstr_eq_self_iff name).mpr h1, (cstr_eq_self_iff value).mpr h2]
      · rw [(headerFiled_eq_self f name value).mpr hsome]
        refine (headerFiled_eq_self f (cstr name) (cstr value)).mpr ?_
        rw [headerField_cstr]
        exact hsome
  · rw [hfield, hstray, hparse]
    refine ⟨fun _ => ⟨fun n v hn => ?_, fun n hn => ?_⟩, fun _ => rfl⟩
    · cases hn
    · cases hn
  · rw [hfield, hstray, hparse]
    simp only
    rw [headerFiled_eq_self]
    refine ⟨fun h => ⟨fun n v hn => ?_, fun n hn => ?_⟩, fun h => h.2 name rfl⟩
    · cases hn
    · cases hn
      exact h

/-! ## the loop -/

/-- two folds agree on every initial part exactly when they take the same step behind each -/
theorem foldl_prefix_iff {α β : Type} (g h : β → α → β) (b : β) (L : List α) :
    (∀ l, l <+: L → l.foldl g b = l.foldl h b) ↔
      ∀ l₁ a l₂, L = l₁ ++ a :: l₂ → g (l₁.foldl h b) a = h (l₁.foldl h b) a := by
  constructor
  · intro hall l₁ a l₂ hL
    have hlong : l₁ ++ [a] <+: L := ⟨l₂, by rw [hL, List.append_assoc]; rfl⟩
    have h1 := hall _ hlong
    have h2 := hall l₁ ((List.prefix_append l₁ [a]).trans hlong)
    rw [List.foldl_append, List.foldl_append, h2] at h1
    exact h1
  · intro hstep l
    induction l using List.reverseRecOn with
    | nil => exact fun _ => rfl
    | append_singleton l a ih =>
      rintro ⟨l₂, hL⟩
      rw [List.foldl_append, List.foldl_append, ih ⟨a :: l₂, by rw [← hL, List.append_assoc]; rfl⟩]
      exact hstep l a l₂ (by rw [← hL, List.append_assoc]; rfl)

/-- what is promised of a block: after each line the fields are those of the field lines so far -/
structure Inserted (b : Block) (f : HeaderFields) : Prop where
  each : ∀ ls, ls <+: b.lines → parserHeaders (HeaderFields.lines ls) f = (true, ls.foldl insertField f)
  whole : parserHeaders b.text f = (true, b.lines.foldl insertField f)

theorem parserHeaders_of_front (b : Block) {ls : List Bytes} (h : ls <+: b.lines) (f : HeaderFields) :
    parserHeaders (lines ls) f = (true, ls.foldl addLine f) := by
  have hc := parserHeaders_block ⟨ls, [], fun t ht => b.line_end t (h.subset ht), by decide⟩ f
  unfold Block.text at hc
  rwa [List.append_nil] at hc

/-- **The lines of a header block** (and every text is that of a block): each field line inserts its
field and no other line inserts anything, exactly when each line is clean behind those before it. -/
theorem parserHeaders_iff (b : Block) (f : HeaderFields) : Inserted b f ↔
    ∀ l₁ line l₂, b.lines = l₁ ++ line :: l₂ → Clean (l₁.foldl insertField f) line := by
  have hfold : Inserted b f ↔
      ∀ ls, ls <+: b.lines → ls.foldl addLine f = ls.foldl insertField f := by
    constructor
    · intro h ls hls
      have heach := h.each ls hls
      rw [parserHeaders_of_front b hls] at heach
      exact congrArg Prod.snd heach
    · intro h
      refine ⟨fun ls hls => ?_, ?_⟩
      · rw [parserHeaders_of_front b hls, h ls hls]
      · rw [parserHeaders_block, h b.lines (List.prefix_refl _)]
  rw [hfold, foldl_prefix_iff]
  refine forall_congr' fun l₁ => forall_congr' fun line => forall_congr' fun l₂ =>
    forall_congr' fun _ => addLine_iff _ line

/-- **A line without a colon** comes in as a field of its own name and value, and one with a colon in
front under the empty name. -/
theorem stray_lines :
    (parserHeaders (ascii "garbage" ++ crlf) {}).2.headerField (ascii "garbage") =
      some (ascii "garbage") ∧
    (parserHeaders (ascii ":value" ++ crlf) {}).2.headerField [] = some (ascii "value") ∧
    ¬ Inserted ⟨[ascii "garbage"], [], by decide, by decide⟩ {} := by
  refine ⟨by decide +kernel, by decide +kernel, fun h => ?_⟩
  have hwhole := congrArg (fun r : Bool × HeaderFields => r.2.headers_.entries) h.whole
  revert hwhole
  decide +kernel

end HeaderFields
end Http
