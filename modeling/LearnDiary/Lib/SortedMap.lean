import Mathlib.Data.List.Basic
import Mathlib.Order.Lattice

/-!
# Maps as sorted lists

A map whose keys are compared through `key : α → κ`, a linear order: two keys with the same image
are the same key, and the spelling that was inserted first is kept.  `insert` does not replace.

* `insertList_last`  a key above all others goes to the end, so
* `ofList_entries`   inserting the entries of a map in their order gives the map back;
* `insert_of_find`, `find_insert`  inserting changes nothing exactly when the key is there;
* `setList_last`, `setList_top`  `set` replaces: a key above all others is appended, the highest one
  has its value changed;
* `forall_set`    a property of the entries that `set` keeps;
* `find_set`, `find_insert_self`, `find_filter`  what is found afterwards.
-/

/-- entries in ascending order of their keys -/
@[ext] structure SortedMap (α β : Type*) {κ : Type*} [LinearOrder κ] (key : α → κ) where
  entries : List (α × β)
  sorted : entries.Pairwise (fun a b => key a.1 < key b.1)

namespace SortedMap
variable {α β κ : Type*} [LinearOrder κ] {key : α → κ}

section
variable (key)

def insertList (k : α) (v : β) : List (α × β) → List (α × β)
  | [] => [(k, v)]
  | e :: l =>
    if key k < key e.1 then (k, v) :: e :: l
    else if key e.1 < key k then e :: insertList k v l
    else e :: l

end

theorem mem_insertList {k : α} {v : β} {l : List (α × β)} {a : α × β}
    (h : a ∈ insertList key k v l) : a = (k, v) ∨ a ∈ l := by
  induction l with
  | nil => exact Or.inl (List.mem_singleton.mp h)
  | cons e l ih =>
    unfold insertList at h
    split at h
    · exact List.mem_cons.mp h
    · split at h
      · rcases List.mem_cons.mp h with rfl | h
        · exact Or.inr List.mem_cons_self
        · rcases ih h with h | h
          · exact Or.inl h
          · exact Or.inr (List.mem_cons_of_mem _ h)
      · exact Or.inr h

theorem insertList_sorted (k : α) (v : β) {l : List (α × β)}
    (h : l.Pairwise (fun a b => key a.1 < key b.1)) :
    (insertList key k v l).Pairwise (fun a b => key a.1 < key b.1) := by
  induction l with
  | nil => exact List.pairwise_singleton _ _
  | cons e l ih =>
    have hl := List.pairwise_cons.mp h
    unfold insertList
    split
    · rename_i hlt
      refine List.pairwise_cons.mpr ⟨fun a ha => ?_, h⟩
      rcases List.mem_cons.mp ha with rfl | ha
      · exact hlt
      · exact lt_trans hlt (hl.1 a ha)
    · split
      · rename_i hlt
        refine List.pairwise_cons.mpr ⟨fun a ha => ?_, ih hl.2⟩
        rcases mem_insertList ha with rfl | ha
        · exact hlt
        · exact hl.1 a ha
      · exact h

theorem insertList_last {k : α} {v : β} {l : List (α × β)} (h : ∀ a ∈ l, key a.1 < key k) :
    insertList key k v l = l ++ [(k, v)] := by
  induction l with
  | nil => rfl
  | cons e l ih =>
    have he := h e List.mem_cons_self
    unfold insertList
    rw [if_neg (not_lt_of_gt he), if_pos he, ih (fun a ha => h a (List.mem_cons_of_mem _ ha))]
    rfl

def empty : SortedMap α β key := ⟨[], List.Pairwise.nil⟩

def insert (m : SortedMap α β key) (k : α) (v : β) : SortedMap α β key :=
  ⟨insertList key k v m.entries, insertList_sorted k v m.sorted⟩

def find (m : SortedMap α β key) (k : α) : Option β :=
  (m.entries.find? (fun e => decide (key e.1 = key k))).map (·.2)

def ofList (m : SortedMap α β key) (l : List (α × β)) : SortedMap α β key :=
  l.foldl (fun m e => m.insert e.1 e.2) m

theorem ofList_append (m : SortedMap α β key) {l : List (α × β)}
    (h : (m.entries ++ l).Pairwise (fun a b => key a.1 < key b.1)) :
    (m.ofList l).entries = m.entries ++ l := by
  induction l generalizing m with
  | nil => exact (List.append_nil _).symm
  | cons e l ih =>
    have hp := List.pairwise_append.mp h
    have e1 : (m.insert e.1 e.2).entries = m.entries ++ [e] :=
      insertList_last (fun a ha => hp.2.2 a ha e List.mem_cons_self)
    have e2 : (m.insert e.1 e.2).entries ++ l = m.entries ++ (e :: l) := by rw [e1]; simp
    rw [← e2]
    exact ih (m.insert e.1 e.2) (by rw [e2]; exact h)

/-- inserting the entries of a map in their order gives the map back -/
theorem ofList_entries (m : SortedMap α β key) : empty.ofList m.entries = m :=
  SortedMap.ext (ofList_append empty m.sorted)

theorem find_isSome_insertList (k : α) (v : β) (l : List (α × β)) :
    ∃ e ∈ insertList key k v l, key e.1 = key k := by
  induction l with
  | nil => exact ⟨(k, v), List.mem_singleton.mpr rfl, rfl⟩
  | cons e l ih =>
    unfold insertList
    split
    · exact ⟨(k, v), List.mem_cons_self, rfl⟩
    · rename_i h1
      split
      · obtain ⟨a, ha, e⟩ := ih
        exact ⟨a, List.mem_cons_of_mem _ ha, e⟩
      · rename_i h2
        exact ⟨e, List.mem_cons_self, le_antisymm (not_lt.mp h1) (not_lt.mp h2)⟩

theorem find_insert (m : SortedMap α β key) (k : α) (v : β) : ((m.insert k v).find k).isSome := by
  obtain ⟨e, he, hk⟩ : ∃ e ∈ insertList key k v m.entries, key e.1 = key k :=
    find_isSome_insertList k v m.entries
  unfold find
  rw [Option.isSome_map, List.find?_isSome]
  exact ⟨e, he, by simp [hk]⟩

theorem insertList_of_mem {k : α} (v : β) {l : List (α × β)}
    (hs : l.Pairwise (fun a b => key a.1 < key b.1)) (h : ∃ e ∈ l, key e.1 = key k) :
    insertList key k v l = l := by
  induction l with
  | nil => obtain ⟨e, he, _⟩ := h; cases he
  | cons e l ih =>
    have hl := List.pairwise_cons.mp hs
    obtain ⟨a, ha, hk⟩ := h
    unfold insertList
    rcases List.mem_cons.mp ha with rfl | ha
    · rw [if_neg (by rw [hk]; exact lt_irrefl _), if_neg (by rw [hk]; exact lt_irrefl _)]
    · have hlt : key e.1 < key k := by rw [← hk]; exact hl.1 a ha
      rw [if_neg (not_lt_of_gt hlt), if_pos hlt, ih hl.2 ⟨a, ha, hk⟩]

theorem insert_of_find {m : SortedMap α β key} {k : α} (v : β) (h : (m.find k).isSome) :
    m.insert k v = m := by
  unfold find at h
  rw [Option.isSome_map, List.find?_isSome] at h
  obtain ⟨e, he, hk⟩ := h
  exact SortedMap.ext (insertList_of_mem v m.sorted ⟨e, he, by simpa using hk⟩)

theorem insert_inj {m : SortedMap α β key} {k k' : α} {v v' : β} (hk : key k' = key k)
    (h : ¬ (m.find k).isSome = true) (he : m.insert k' v' = m.insert k v) : k' = k ∧ v' = v := by
  have hnone : ∀ e ∈ m.entries, key e.1 ≠ key k := by
    intro e hm heq
    apply h
    unfold find
    rw [Option.isSome_map, List.find?_isSome]
    exact ⟨e, hm, by simp [heq]⟩
  have hin : (k', v') ∈ (m.insert k' v').entries := by
    obtain ⟨e, hm, hkey⟩ : ∃ e ∈ insertList key k' v' m.entries, key e.1 = key k' :=
      find_isSome_insertList k' v' m.entries
    rcases mem_insertList hm with rfl | hold
    · exact hm
    · exact absurd (hkey.trans hk) (hnone e hold)
  rw [he] at hin
  rcases mem_insertList (show (k', v') ∈ insertList key k v m.entries from hin) with heq | hold
  · exact Prod.mk.inj heq
  · exact absurd hk (hnone (k', v') hold)

/-! ## writing -/

section
variable (key)

def setList (k : α) (v : β) : List (α × β) → List (α × β)
  | [] => [(k, v)]
  | e :: l =>
    if key k < key e.1 then (k, v) :: e :: l
    else if key e.1 < key k then e :: setList k v l
    else (e.1, v) :: l

end

theorem mem_setList {k : α} {v : β} {l : List (α × β)} {a : α × β} (h : a ∈ setList key k v l) :
    (key a.1 = key k ∧ a.2 = v) ∨ a ∈ l := by
  induction l with
  | nil =>
    cases List.mem_singleton.mp h
    exact Or.inl ⟨rfl, rfl⟩
  | cons e l ih =>
    unfold setList at h
    split at h
    · rcases List.mem_cons.mp h with rfl | h
      · exact Or.inl ⟨rfl, rfl⟩
      · exact Or.inr h
    · rename_i h1
      split at h
      · rcases List.mem_cons.mp h with rfl | h
        · exact Or.inr List.mem_cons_self
        · exact (ih h).imp_right (List.mem_cons_of_mem _)
      · rename_i h2
        rcases List.mem_cons.mp h with rfl | h
        · exact Or.inl ⟨le_antisymm (not_lt.mp h1) (not_lt.mp h2), rfl⟩
        · exact Or.inr (List.mem_cons_of_mem _ h)

theorem setList_sorted (k : α) (v : β) {l : List (α × β)}
    (h : l.Pairwise (fun a b => key a.1 < key b.1)) :
    (setList key k v l).Pairwise (fun a b => key a.1 < key b.1) := by
  induction l with
  | nil => exact List.pairwise_singleton _ _
  | cons e l ih =>
    have hl := List.pairwise_cons.mp h
    unfold setList
    split
    · rename_i hlt
      refine List.pairwise_cons.mpr ⟨fun a ha => ?_, h⟩
      rcases List.mem_cons.mp ha with rfl | ha
      · exact hlt
      · exact lt_trans hlt (hl.1 a ha)
    · split
      · rename_i hlt
        refine List.pairwise_cons.mpr ⟨fun a ha => ?_, ih hl.2⟩
        rcases mem_setList ha with ⟨e1, -⟩ | ha
        · rw [e1]
          exact hlt
        · exact hl.1 a ha
      · exact List.pairwise_cons.mpr hl

theorem setList_last {k : α} {v : β} {l : List (α × β)} (h : ∀ a ∈ l, key a.1 < key k) :
    setList key k v l = l ++ [(k, v)] := by
  induction l with
  | nil => rfl
  | cons e l ih =>
    have he := h e List.mem_cons_self
    unfold setList
    rw [if_neg (not_lt_of_gt he), if_pos he, ih (fun a ha => h a (List.mem_cons_of_mem _ ha))]
    rfl

theorem setList_top {k : α} (v w : β) {l : List (α × β)} (h : ∀ a ∈ l, key a.1 < key k) :
    setList key k v (l ++ [(k, w)]) = l ++ [(k, v)] := by
  induction l with
  | nil =>
    rw [List.nil_append, setList, if_neg (lt_irrefl _), if_neg (lt_irrefl _)]
    rfl
  | cons e l ih =>
    have he := h e List.mem_cons_self
    rw [List.cons_append, setList, if_neg (not_lt_of_gt he), if_pos he,
      ih (fun a ha => h a (List.mem_cons_of_mem _ ha))]
    rfl

/-- `m[k] = v` -/
def set (m : SortedMap α β key) (k : α) (v : β) : SortedMap α β key :=
  ⟨setList key k v m.entries, setList_sorted k v m.sorted⟩

def filter (m : SortedMap α β key) (p : α × β → Bool) : SortedMap α β key :=
  ⟨m.entries.filter p, m.sorted.filter p⟩

theorem forall_insert {P : α × β → Prop} {m : SortedMap α β key} (h : ∀ e ∈ m.entries, P e) {k : α}
    {v : β} (hk : P (k, v)) : ∀ e ∈ (m.insert k v).entries, P e := by
  intro e he
  rcases mem_insertList he with rfl | he
  · exact hk
  · exact h e he

theorem forall_set {P : α × β → Prop} {m : SortedMap α β key} (h : ∀ e ∈ m.entries, P e) {k : α}
    {v : β} (hk : ∀ a, key a = key k → P (a, v)) : ∀ e ∈ (m.set k v).entries, P e := by
  intro e he
  rcases mem_setList he with ⟨h1, h2⟩ | he
  · have hp := hk e.1 h1
    rw [← h2] at hp
    exact hp
  · exact h e he

theorem mem_of_find {m : SortedMap α β key} {k : α} {v : β} (h : m.find k = some v) :
    ∃ e ∈ m.entries, key e.1 = key k ∧ e.2 = v := by
  obtain ⟨e, he, hv⟩ := Option.map_eq_some_iff.mp h
  have hk := List.find?_some he
  exact ⟨e, List.mem_of_find?_eq_some he, of_decide_eq_true hk, hv⟩

theorem find_top {m : SortedMap α β key} {l : List (α × β)} {k : α} {v : β}
    (h : m.entries = l ++ [(k, v)]) (hl : ∀ a ∈ l, key a.1 < key k) : m.find k = some v := by
  have hnone : l.find? (fun e => decide (key e.1 = key k)) = none :=
    List.find?_eq_none.mpr fun a ha he => ne_of_lt (hl a ha) (of_decide_eq_true he)
  have hk : [(k, v)].find? (fun e => decide (key e.1 = key k)) = some (k, v) :=
    List.find?_cons_of_pos (decide_eq_true rfl)
  rw [find, h, List.find?_append, hnone, Option.none_or, hk, Option.map_some]

theorem find_of_mem {m : SortedMap α β key} {e : α × β} (he : e ∈ m.entries) {k : α}
    (hk : key e.1 = key k) : m.find k = some e.2 := by
  obtain ⟨l, r, hlr⟩ := List.append_of_mem he
  have hs := m.sorted
  rw [hlr] at hs
  have hl : l.find? (fun a => decide (key a.1 = key k)) = none := by
    refine List.find?_eq_none.mpr fun a ha hd => ?_
    have hlt := (List.pairwise_append.mp hs).2.2 a ha e List.mem_cons_self
    rw [hk] at hlt
    exact ne_of_lt hlt (of_decide_eq_true hd)
  have hcons : (e :: r).find? (fun a => decide (key a.1 = key k)) = some e :=
    List.find?_cons_of_pos (decide_eq_true hk)
  rw [find, hlr, List.find?_append, hl, Option.none_or, hcons, Option.map_some]

theorem find_set (m : SortedMap α β key) (k : α) (v : β) : (m.set k v).find k = some v := by
  have hin : ∀ l : List (α × β), ∃ e ∈ setList key k v l, key e.1 = key k ∧ e.2 = v := by
    intro l
    induction l with
    | nil => exact ⟨(k, v), List.mem_singleton.mpr rfl, rfl, rfl⟩
    | cons e l ih =>
      unfold setList
      split
      · exact ⟨(k, v), List.mem_cons_self, rfl, rfl⟩
      · rename_i h1
        split
        · obtain ⟨a, ha, h⟩ := ih
          exact ⟨a, List.mem_cons_of_mem _ ha, h⟩
        · rename_i h2
          exact ⟨(e.1, v), List.mem_cons_self, le_antisymm (not_lt.mp h1) (not_lt.mp h2), rfl⟩
  obtain ⟨e, he, hk, hv⟩ := hin m.entries
  have hf : (m.set k v).find k = some e.2 := find_of_mem he hk
  rw [hf, hv]

theorem find_insert_self (m : SortedMap α β key) (k : α) (v : β) :
    (m.insert k v).find k = some ((m.find k).getD v) := by
  cases hf : m.find k with
  | some w => rw [insert_of_find v (by rw [hf]; rfl), hf, Option.getD_some]
  | none =>
    obtain ⟨w, hw⟩ := Option.isSome_iff_exists.mp (find_insert m k v)
    obtain ⟨e, he, hk, rfl⟩ := mem_of_find hw
    rcases mem_insertList he with rfl | hm
    · exact hw
    · rw [find_of_mem hm hk] at hf
      cases hf

theorem find_filter {m : SortedMap α β key} {p : α × β → Bool} {k : α} {v : β}
    (h : m.find k = some v) (hp : ∀ a, key a = key k → p (a, v) = true) :
    (m.filter p).find k = some v := by
  obtain ⟨e, he, hk, rfl⟩ := mem_of_find h
  have hm : e ∈ (m.filter p).entries := List.mem_filter.mpr ⟨he, hp e.1 hk⟩
  exact find_of_mem hm hk

theorem find_of_filter {m : SortedMap α β key} {p : α × β → Bool} {k : α} {v : β}
    (h : (m.filter p).find k = some v) : m.find k = some v := by
  obtain ⟨e, he, hk, rfl⟩ := mem_of_find h
  exact find_of_mem (List.mem_of_mem_filter he) hk

end SortedMap
