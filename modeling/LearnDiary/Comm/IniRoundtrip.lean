import LearnDiary.Comm.Ini

/-!
# An INI file read back (comm/ini.h)

`kept ini`: the sections `Save` writes.  `reads p file` is the loop of `Parse` from `p` on.

* `reads_section`, `reads_key`  one written line;
* `reads_entries`   all of them, in the order of the maps;
* `parse_none_iff`  the files on which `Parse` leaves its arrays;
* `reopen_iff`      exactly when an object opened on a saved file has the saved sections.
-/

namespace Ini
open Runs

/-- the sections that have keys -/
def kept (ini : INI) : Sections := ini.sections.filter fun i => decide (i.2.entries.length ≠ 0)

def block (i : Bytes × Keys) : Bytes :=
  makeSection i.1 ++ i.2.entries.flatMap fun j => makeKeyValue j.1 j.2

theorem save_eq (ini : INI) : save ini = (kept ini).entries.flatMap block := by
  have he : (kept ini).entries =
    ini.sections.entries.filter fun i => decide (i.2.entries.length ≠ 0) := rfl
  rw [he, save]
  generalize ini.sections.entries = l
  induction l with
  | nil => rfl
  | cons i l ih =>
    rw [List.flatMap_cons, ih]
    by_cases h : i.2.entries.length = 0
    · rw [if_pos h, List.filter_cons_of_neg (by simpa using h), List.nil_append]
    · rw [if_neg h, List.filter_cons_of_pos (by simpa using h), List.flatMap_cons, block]

/-! ## lines -/

def reads (p : Parsing) (file : Bytes) : Option Parsing :=
  (fgets (bufferSize - 1) [] file).foldlM parseLine p

theorem fgets_append {room : Nat} {acc x : Bytes} (hx : 10 ∉ x) (hr : x.length < room) (t : Bytes) :
    fgets room acc (x ++ 10 :: t) = (acc ++ x ++ [10]) :: fgets (bufferSize - 1) [] t := by
  induction x generalizing room acc with
  | nil =>
    rw [List.nil_append, List.append_nil, fgets, if_pos (Or.inl rfl)]
  | cons c x ih =>
    have hc : ¬ (c = 10 ∨ room ≤ 1) := by
      rintro (rfl | h)
      · exact hx List.mem_cons_self
      · rw [List.length_cons] at hr
        omega
    have hx' : 10 ∉ x := fun hm => hx (List.mem_cons_of_mem _ hm)
    have hr' : x.length < room - 1 := by
      rw [List.length_cons] at hr
      omega
    rw [List.cons_append, fgets, if_neg hc, ih hx' hr', List.append_assoc acc [c] x]
    rfl

/-- a line that fills the room: its newline comes with the next call -/
theorem fgets_full {room : Nat} {acc x : Bytes} (hx : 10 ∉ x) (hr : x.length = room) (hp : 1 ≤ room)
    (t : Bytes) : fgets room acc (x ++ t) = (acc ++ x) :: fgets (bufferSize - 1) [] t := by
  induction x generalizing room acc with
  | nil =>
    rw [List.length_nil] at hr
    omega
  | cons c x ih =>
    rw [List.length_cons] at hr
    have hx' : 10 ∉ x := fun hm => hx (List.mem_cons_of_mem _ hm)
    rw [List.cons_append, fgets]
    by_cases h1 : room ≤ 1
    · have hnil : x = [] := List.eq_nil_of_length_eq_zero (by omega)
      rw [if_pos (Or.inr h1), hnil, List.nil_append]
    · have hc : ¬ (c = 10 ∨ room ≤ 1) := by
        rintro (rfl | h)
        · exact hx List.mem_cons_self
        · exact h1 h
      rw [if_neg hc, ih hx' (by omega) (by omega), List.append_assoc]
      rfl

theorem reads_line (p : Parsing) {x : Bytes} (hx : 10 ∉ x) (hl : x.length < bufferSize - 1)
    (t : Bytes) : reads p (x ++ 10 :: t) = (parseLine p (x ++ [10])).bind (reads · t) := by
  rw [reads, fgets_append hx hl, List.foldlM_cons]
  rfl

theorem reads_full (p : Parsing) {x : Bytes} (hx : 10 ∉ x) (hl : x.length = bufferSize - 1)
    (t : Bytes) : reads p (x ++ t) = (parseLine p x).bind (reads · t) := by
  rw [reads, fgets_full hx hl (by decide), List.foldlM_cons]
  rfl

/-! ## the text of a name and of a value -/

theorem verifyName_iff {n : Bytes} : verifyName n = true ↔ n ≠ [] ∧ ∀ c ∈ n, nameChar c = true := by
  unfold verifyName
  cases n with
  | nil => simp
  | cons c n => simp [List.all_eq_true]

theorem scanSet_eq : scanSet = nameChar := by
  funext c
  unfold scanSet nameChar
  ac_rfl

theorem not_mem_name {n : Bytes} (hn : verifyName n = true) {c : UInt8} (hc : nameChar c = false) :
    c ∉ n := by
  intro hm
  have h := (verifyName_iff.mp hn).2 c hm
  rw [hc] at h
  cases h

theorem cstr_of_no_nul {s : Bytes} (h : 0 ∉ s) : cstr s = s :=
  Find.upTo_eq_self notNul (notNul_of_not_mem h)

theorem parseLine_eq (p : Parsing) {x nl : Bytes} (hnl : nl = [10] ∨ nl = [] ∧ x ≠ [])
    (h0 : 0 ∉ x) (h10 : 10 ∉ x) (hc : ¬ [47, 47] <+: x ++ nl) :
    parseLine p (x ++ nl) =
      if [91] <+: x then parseSection p x else some (parseKey p x) := by
  have hz : 0 ∉ x ++ nl := by
    intro hm
    rcases List.mem_append.mp hm with hm | hm
    · exact h0 hm
    · rcases hnl with rfl | ⟨rfl, -⟩
      · exact absurd (List.mem_singleton.mp hm) (by decide)
      · cases hm
  unfold parseLine
  rw [cstr_of_no_nul hz]
  dsimp only
  rw [if_neg hc]
  rcases hnl with rfl | ⟨rfl, hne⟩
  · rw [List.getLast?_concat]
    dsimp only
    rw [if_pos rfl, List.dropLast_concat]
  · rw [List.append_nil, List.getLast?_eq_getLast_of_ne_nil hne]
    have hl : x.getLast hne ≠ 10 := fun e => h10 (e ▸ List.getLast_mem hne)
    dsimp only
    rw [if_neg hl]

theorem takeWhile_name {n : Bytes} (hn : verifyName n = true) (t : Bytes) :
    (n ++ 93 :: t).takeWhile scanSet = n := by
  have h93 : ¬ scanSet 93 = true := by decide
  rw [List.takeWhile_append_of_pos, List.takeWhile_cons_of_neg h93, List.append_nil]
  intro c hc
  rw [scanSet_eq]
  exact (verifyName_iff.mp hn).2 c hc

theorem parseSection_name (p : Parsing) {n : Bytes} (hn : InBrackets n) :
    parseSection p (91 :: n ++ [93]) = some (n, p.2.insert n .empty) := by
  have hne := (verifyName_iff.mp hn.1).1
  have hs : scanSection (91 :: n ++ [93]) = (1, n) := by
    unfold scanSection
    dsimp only
    rw [List.cons_append, List.drop_one, List.tail_cons, takeWhile_name hn.1, if_neg hne, if_neg]
    rw [List.length_cons, List.length_append, List.length_singleton]
    omega
  have hl : ¬ 512 < n.length + 1 := by
    have := hn.2
    omega
  unfold parseSection
  rw [hs]
  dsimp only
  rw [if_neg hl, if_neg (by decide), if_neg (not_not.mpr hn.1)]

theorem reads_section (p : Parsing) {n : Bytes} (hn : InBrackets n) (t : Bytes) :
    reads p (makeSection n ++ t) = reads (n, p.2.insert n .empty) t := by
  have hx : ∀ c : UInt8, nameChar c = false → c ≠ 91 → c ≠ 93 → c ∉ 91 :: n ++ [93] := by
    intro c hc h1 h2 hm
    rcases List.mem_append.mp hm with hm | hm
    · rcases List.mem_cons.mp hm with rfl | hm
      · exact h1 rfl
      · exact not_mem_name hn.1 hc hm
    · exact h2 (List.mem_singleton.mp hm)
  have hl : (91 :: n ++ [93] : Bytes).length < bufferSize - 1 := by
    have := hn.2
    rw [List.length_append, List.length_cons, List.length_singleton, bufferSize]
    omega
  have e : makeSection n ++ t = (91 :: n ++ [93]) ++ 10 :: t := by
    rw [makeSection, List.append_assoc, List.append_assoc]
    rfl
  have h47 : ¬ [47, 47] <+: (91 :: n ++ [93] : Bytes) ++ [10] := by
    intro h
    exact absurd (List.cons_prefix_cons.mp h).1 (by decide)
  have h91 : [91] <+: (91 :: n ++ [93] : Bytes) := List.prefix_append [91] (n ++ [93])
  have h10 := hx 10 (by decide) (by decide) (by decide)
  rw [e, reads_line p h10 hl, parseLine_eq p (Or.inl rfl) (hx 0 (by decide) (by decide) (by decide))
    h10 h47, if_pos h91, parseSection_name p hn, Option.bind_some]

theorem parseKey_value (s : Sections) {cur k v : Bytes} (hcur : cur ≠ []) (hk : verifyName k = true) :
    parseKey (cur, s) (k ++ 61 :: v) = (cur, put s cur k v) := by
  have hf : Find.find [61] (k ++ 61 :: v) = some k.length :=
    Find.find_line (not_mem_name hk (by decide)) v
  have hc : ¬ cur.length = 0 := fun e => hcur (List.eq_nil_of_length_eq_zero e)
  have hd : (k ++ 61 :: v).drop (k.length + 1) = v := by
    rw [← List.drop_drop, List.drop_left]
    rfl
  unfold parseKey
  dsimp only
  rw [if_neg hc, hf]
  dsimp only
  rw [List.take_left, hd, if_neg (not_not.mpr hk)]

theorem parseLine_newline {p : Parsing} : parseLine p [10] = some p := by
  have h := parseLine_eq p (Or.inl rfl : ([10] : Bytes) = [10] ∨ _) (x := []) List.not_mem_nil
    List.not_mem_nil (by decide)
  have hk : parseKey p [] = p := by
    unfold parseKey
    dsimp only
    split
    · rfl
    · rfl
  rw [List.nil_append, if_neg (by decide), hk] at h
  exact h

/-- a key line is read back, also where its newline does not fit into `line` any more -/
theorem reads_key (s : Sections) {cur k v : Bytes} (hcur : cur ≠ []) (h : InLine k v) (t : Bytes) :
    reads (cur, s) (makeKeyValue k v ++ t) = reads (cur, put s cur k v) t := by
  obtain ⟨hk, hlen, hv10, hv0⟩ := h
  have hx : ∀ c : UInt8, nameChar c = false → c ≠ 61 → c ∉ v → c ∉ k ++ 61 :: v := by
    intro c hc h1 h2 hm
    rcases List.mem_append.mp hm with hm | hm
    · exact not_mem_name hk hc hm
    · rcases List.mem_cons.mp hm with rfl | hm
      · exact h1 rfl
      · exact h2 hm
  have h10 := hx 10 (by decide) (by decide) hv10
  have h0 := hx 0 (by decide) (by decide) hv0
  have hl : (k ++ 61 :: v).length = k.length + v.length + 1 := by
    rw [List.length_append, List.length_cons, Nat.add_assoc]
  have e : makeKeyValue k v ++ t = (k ++ 61 :: v) ++ 10 :: t := by
    rw [makeKeyValue, List.append_assoc]
    rfl
  -- a key has no slash and no bracket
  have hhead : ∀ (c : UInt8) (u w : Bytes), nameChar c = false → ¬ c :: u <+: (k ++ 61 :: v) ++ w := by
    intro c u w hc hpre
    obtain ⟨hne, hall⟩ := verifyName_iff.mp hk
    obtain ⟨d, k', rfl⟩ := List.exists_cons_of_ne_nil hne
    have hd := hall d List.mem_cons_self
    rw [← (List.cons_prefix_cons.mp hpre).1, hc] at hd
    cases hd
  have h91 : ¬ [91] <+: k ++ 61 :: v := fun hp =>
    hhead 91 [] [] (by decide) (by rw [List.append_nil]; exact hp)
  have hstep : ∀ nl : Bytes, (nl = [10] ∨ nl = [] ∧ k ++ 61 :: v ≠ []) →
      parseLine (cur, s) ((k ++ 61 :: v) ++ nl) = some (cur, put s cur k v) := by
    intro nl hnl
    rw [parseLine_eq _ hnl h0 h10 (hhead 47 [47] nl (by decide)), if_neg h91,
      parseKey_value s hcur hk]
  rw [e]
  rcases Nat.lt_or_ge (k ++ 61 :: v).length (bufferSize - 1) with hlt | hge
  · rw [reads_line _ h10 hlt, hstep [10] (Or.inl rfl), Option.bind_some]
  · have hne : k ++ 61 :: v ≠ [] := List.append_ne_nil_of_right_ne_nil _ (List.cons_ne_nil _ _)
    have hs := hstep [] (Or.inr ⟨rfl, hne⟩)
    have hfull : (k ++ 61 :: v).length = bufferSize - 1 := by omega
    rw [List.append_nil] at hs
    rw [reads_full _ h10 hfull, hs, Option.bind_some]
    have hn := reads_line (cur, put s cur k v) (x := []) List.not_mem_nil (by decide) t
    rw [List.nil_append, List.nil_append, parseLine_newline, Option.bind_some] at hn
    exact hn

/-! ## the entries in their order -/

theorem put_top {s : Sections} {l : List (Bytes × Keys)} {n : Bytes} {m : Keys}
    (hs : s.entries = l ++ [(n, m)]) (hl : ∀ a ∈ l, strKey a.1 < strKey n) (k v : Bytes) :
    (put s n k v).entries = l ++ [(n, m.set k v)] := by
  have hf := SortedMap.find_top hs hl
  have he : (put s n k v).entries =
    SortedMap.setList strKey n (((s.find n).getD .empty).set k v) s.entries := rfl
  rw [he, hf, hs, Option.getD_some, SortedMap.setList_top _ _ hl]

theorem reads_keys {s : Sections} {l : List (Bytes × Keys)} {n : Bytes} {m : Keys}
    (hs : s.entries = l ++ [(n, m)]) (hl : ∀ a ∈ l, strKey a.1 < strKey n) (hn : n ≠ [])
    {rest : List (Bytes × Bytes)} (hr : ∀ j ∈ rest, InLine j.1 j.2)
    (hsort : (m.entries ++ rest).Pairwise (fun a b => strKey a.1 < strKey b.1)) (t : Bytes) :
    ∃ s' m', reads (n, s) (rest.flatMap (fun j => makeKeyValue j.1 j.2) ++ t) = reads (n, s') t ∧
      s'.entries = l ++ [(n, m')] ∧ m'.entries = m.entries ++ rest := by
  induction rest generalizing s m with
  | nil => exact ⟨s, m, rfl, hs, (List.append_nil _).symm⟩
  | cons j rest ih =>
    have hlast : ∀ a ∈ m.entries, strKey a.1 < strKey j.1 := fun a ha =>
      (List.pairwise_append.mp hsort).2.2 a ha j List.mem_cons_self
    have hm : (m.set j.1 j.2).entries = m.entries ++ [j] := SortedMap.setList_last hlast
    have hsort' : ((m.set j.1 j.2).entries ++ rest).Pairwise
        (fun a b => strKey a.1 < strKey b.1) := by
      rw [hm, List.append_assoc]
      exact hsort
    obtain ⟨s', m', h1, h2, h3⟩ := ih (put_top hs hl j.1 j.2)
      (fun a ha => hr a (List.mem_cons_of_mem _ ha)) hsort'
    refine ⟨s', m', ?_, h2, ?_⟩
    · rw [List.flatMap_cons, List.append_assoc, reads_key s hn (hr j List.mem_cons_self), h1]
    · rw [h3, hm, List.append_assoc]
      rfl

theorem reads_entries {p : Parsing} {rest : List (Bytes × Keys)}
    (hr : ∀ i ∈ rest, InBrackets i.1 ∧ ∀ j ∈ i.2.entries, InLine j.1 j.2)
    (hsort : (p.2.entries ++ rest).Pairwise (fun a b => strKey a.1 < strKey b.1)) :
    ∃ q, reads p (rest.flatMap block) = some q ∧ q.2.entries = p.2.entries ++ rest := by
  induction rest generalizing p with
  | nil => exact ⟨p, rfl, (List.append_nil _).symm⟩
  | cons i rest ih =>
    have hi := hr i List.mem_cons_self
    have hlast : ∀ a ∈ p.2.entries, strKey a.1 < strKey i.1 := fun a ha =>
      (List.pairwise_append.mp hsort).2.2 a ha i List.mem_cons_self
    have hins : (p.2.insert i.1 .empty).entries = p.2.entries ++ [(i.1, .empty)] :=
      SortedMap.insertList_last hlast
    have hne : i.1 ≠ [] := (verifyName_iff.mp hi.1.1).1
    obtain ⟨s', m', h1, h2, h3⟩ := reads_keys hins hlast hne hi.2 i.2.sorted (rest.flatMap block)
    have hm : m' = i.2 := SortedMap.ext h3
    have hs' : s'.entries = p.2.entries ++ [i] := by rw [h2, hm]
    have hsort' : (s'.entries ++ rest).Pairwise (fun a b => strKey a.1 < strKey b.1) := by
      rw [hs', List.append_assoc]
      exact hsort
    obtain ⟨q, hq, hqe⟩ := ih (p := (i.1, s')) (fun a ha => hr a (List.mem_cons_of_mem _ ha)) hsort'
    refine ⟨q, ?_, ?_⟩
    · rw [List.flatMap_cons, block, List.append_assoc, reads_section p hi.1, h1, hq]
    · rw [hqe, hs', List.append_assoc]
      rfl

/-! ## where `Parse` leaves its arrays -/

/-- a line that begins with NUL, or a name too long for `ssection` -/
def Wild (l : Bytes) : Prop :=
  [0] <+: l ∨ [91] <+: l ∧ 512 ≤ ((l.drop 1).takeWhile scanSet).length

theorem takeWhile_cut {p : UInt8 → Bool} (x r : Bytes) (hr : ∀ c ∈ r.head?, p c = false) :
    (x ++ r).takeWhile p = x.takeWhile p := by
  rw [List.takeWhile_append]
  split
  · rename_i h
    have hx := (List.takeWhile_prefix p).eq_of_length h
    cases r with
    | nil => rw [List.takeWhile_nil, List.append_nil, hx]
    | cons c r =>
      rw [List.takeWhile_cons_of_neg (by rw [hr c rfl]; decide), List.append_nil, hx]
  · rfl

theorem line_cut {l : Bytes} {last : UInt8} (hl : (cstr l).getLast? = some last) :
    ∃ r, l = (if last = 10 then (cstr l).dropLast else cstr l) ++ r ∧ ∀ c ∈ r.head?, c = 0 ∨ c = 10 := by
  have hsplit : l = cstr l ++ l.dropWhile notNul := (List.takeWhile_append_dropWhile).symm
  have hhead : ∀ c ∈ (l.dropWhile notNul).head?, c = 0 := by
    intro c hc
    have h := List.head?_dropWhile_not notNul l
    rw [Option.mem_def.mp hc] at h
    unfold notNul at h
    simpa using h
  split
  · rename_i h10
    refine ⟨last :: l.dropWhile notNul, ?_, fun c hc => ?_⟩
    · have hd := List.dropLast_append_getLast? last hl
      rw [← List.singleton_append, ← List.append_assoc, hd]
      exact hsplit
    · cases hc
      exact Or.inr h10
  · exact ⟨_, hsplit, fun c hc => Or.inl (hhead c hc)⟩

theorem parseSection_none {p : Parsing} {line : Bytes} :
    parseSection p line = none ↔ 512 ≤ ((line.drop 1).takeWhile scanSet).length := by
  have hsome : ∀ (c d : Prop) [Decidable c] [Decidable d] (x y z : Parsing),
      ¬ (if c then some x else if d then some y else some z) = none := by
    intro c d _ _ x y z h
    split at h
    · cases h
    · split at h
      · cases h
      · cases h
  unfold parseSection scanSection
  dsimp only
  split
  · rename_i h
    exact ⟨fun _ => by omega, fun _ => rfl⟩
  · rename_i h
    exact ⟨fun hn => absurd hn (hsome _ _ _ _ _), fun h' => absurd h' (by omega)⟩

theorem parseLine_none {p : Parsing} {l : Bytes} (hl : l ≠ []) : parseLine p l = none ↔ Wild l := by
  obtain ⟨c, t, rfl⟩ := List.exists_cons_of_ne_nil hl
  by_cases h0 : c = 0
  · -- the newline is looked for in front of the line
    have hc : cstr (c :: t) = [] := List.takeWhile_cons_of_neg (by rw [h0]; decide)
    have hw : Wild (c :: t) := Or.inl (by rw [h0]; exact List.prefix_append [0] t)
    refine ⟨fun _ => hw, fun _ => ?_⟩
    unfold parseLine
    rw [hc]
    rfl
  have hc : cstr (c :: t) = c :: cstr t := List.takeWhile_cons_of_pos (bne_iff_ne.mpr h0)
  have h0' : ¬ [0] <+: c :: t := fun h => h0 (List.cons_prefix_cons.mp h).1.symm
  obtain ⟨last, hlast⟩ : ∃ last, (cstr (c :: t)).getLast? = some last := by
    rw [hc]
    exact ⟨_, List.getLast?_cons⟩
  obtain ⟨r, hr, hrh⟩ := line_cut hlast
  unfold parseLine
  dsimp only
  rw [hlast]
  dsimp only
  generalize (if last = 10 then (cstr (c :: t)).dropLast else cstr (c :: t)) = line at hr ⊢
  by_cases h91 : c = 91
  · -- a section line: the scan ends where the line does
    subst h91
    have hx : ∃ x, line = 91 :: x ∧ t = x ++ r := by
      cases line with
      | nil =>
        rw [List.nil_append] at hr
        rw [← hr] at hrh
        exact absurd (hrh 91 rfl) (by decide)
      | cons d x =>
        obtain ⟨rfl, ht⟩ := List.cons.inj hr
        exact ⟨x, rfl, ht⟩
    obtain ⟨x, rfl, rfl⟩ := hx
    have hcut : (x ++ r).takeWhile scanSet = x.takeWhile scanSet := by
      refine takeWhile_cut x r fun d hd => ?_
      rcases hrh d hd with rfl | rfl
      · rfl
      · rfl
    have h47 : ¬ [47, 47] <+: cstr (91 :: (x ++ r)) := by
      rw [hc]
      exact fun h => absurd (List.cons_prefix_cons.mp h).1 (by decide)
    have hp : [91] <+: 91 :: x := List.prefix_append [91] x
    have hp' : [91] <+: 91 :: (x ++ r) := List.prefix_append [91] (x ++ r)
    rw [if_neg h47, if_pos hp, parseSection_none, List.drop_one, List.tail_cons, Wild,
      List.drop_one, List.tail_cons, hcut]
    exact ⟨fun h => Or.inr ⟨hp', h⟩, fun h => (h.resolve_left h0').2⟩
  · have hw : ¬ Wild (c :: t) := by
      rintro (h | h)
      · exact h0' h
      · exact h91 (List.cons_prefix_cons.mp h.1).1.symm
    have hp : ¬ [91] <+: line := by
      intro h
      have hpre : [91] <+: c :: t := hr ▸ h.trans (List.prefix_append line r)
      exact h91 (List.cons_prefix_cons.mp hpre).1.symm
    refine ⟨fun hn => ?_, fun h => absurd h hw⟩
    rw [if_neg hp] at hn
    split at hn
    · cases hn
    · cases hn

/-- **`Parse` leaves its arrays on exactly these files**, whatever the object holds -/
theorem parse_none_iff (ini : INI) (file : Bytes) :
    parse ini (some file) = none ↔ ∃ l ∈ fgets (bufferSize - 1) [] file, Wild l := by
  have hl : ∀ l ∈ fgets (bufferSize - 1) [] file, Line l :=
    fgets_line (by decide) List.not_mem_nil (by decide)
  have hp : parse ini (some file) = none ↔
      (fgets (bufferSize - 1) [] file).foldlM parseLine ([], ini.sections) = none :=
    Option.map_eq_none_iff
  rw [hp]
  generalize ([], ini.sections) = p
  generalize fgets (bufferSize - 1) [] file = lines at hl
  induction lines generalizing p with
  | nil =>
    constructor
    · intro h
      cases h
    · rintro ⟨l, hm, -⟩
      cases hm
  | cons l lines ih =>
    have hn := parseLine_none (p := p) (hl l List.mem_cons_self).pos
    rw [List.foldlM_cons, List.exists_mem_cons_iff, ← hn]
    cases hq : parseLine p l with
    | none => exact ⟨fun _ => Or.inl rfl, fun _ => rfl⟩
    | some q =>
      have hq' : lines.foldlM parseLine q = none ↔ ∃ m ∈ lines, Wild m :=
        ih q (fun m hm => hl m (List.mem_cons_of_mem _ hm))
      rw [← hq']
      exact ⟨Or.inr, fun h => h.resolve_left (Option.some_ne_none q)⟩

/-! ## reopening a saved file -/

theorem open_save {ini : INI} (h : Each InBrackets InLine (kept ini)) :
    open_ (some (save ini)) = some { sections := kept ini } := by
  obtain ⟨q, hq, he⟩ := reads_entries (p := ([], .empty)) h (kept ini).sorted
  have hk : q.2 = kept ini := SortedMap.ext he
  have hp : parse {} (some (save ini)) = some (true, { sections := kept ini }) := by
    rw [← hk, save_eq]
    exact congrArg (Option.map _) hq
  rw [open_, hp]
  rfl

/-- what survives in a file: section names fit into `ssection`, values are of one line without NUL,
and no entry uses the whole of what `Set` allows -/
def Storable (s : Sections) : Prop :=
  ∀ i ∈ s.entries, i.1.length < 512 ∧
    ∀ j ∈ i.2.entries, 10 ∉ j.2 ∧ 0 ∉ j.2 ∧ j.1.length + j.2.length + 1 ≠ bufferSize

theorem storable_iff {ini : INI} (h : Named ini) :
    Each InBrackets InLine (kept ini) ↔ Storable (kept ini) := by
  have hn : Each (fun n => verifyName n) Allowed (kept ini) := h.sections.filter _
  constructor
  · intro he i hi
    refine ⟨(he i hi).1.2, fun j hj => ?_⟩
    obtain ⟨-, hl, h10, h0⟩ := (he i hi).2 j hj
    exact ⟨h10, h0, hl.ne⟩
  · intro hs i hi
    refine ⟨⟨(hn i hi).1, (hs i hi).1⟩, fun j hj => ?_⟩
    obtain ⟨hk, hl⟩ := (hn i hi).2 j hj
    obtain ⟨h10, h0, hne⟩ := (hs i hi).2 j hj
    exact ⟨hk, lt_of_le_of_ne hl hne, h10, h0⟩

/-- **the round trip**: after any calls, a file written by `Save` opens with the sections that had
keys, and with nothing else, exactly when they are storable -/
theorem reopen_iff {ini : INI} (h : AnyRun call {} ini) :
    open_ (some (save ini)) = some { sections := kept ini } ↔ Storable (kept ini) := by
  rw [← storable_iff (named_run h)]
  exact ⟨fun ho => stored_open ho, open_save⟩

/-- one section with one key -/
theorem reopen_iff_one :
    open_ (some (save (set {} [97] [107] [118]).2)) =
        some { sections := kept (set {} [97] [107] [118]).2 } ↔
      Storable (kept (set {} [97] [107] [118]).2) :=
  reopen_iff (Run.of_exec (l := [.set [97] [107] [118]]) rfl)

end Ini
