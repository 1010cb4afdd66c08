import Mathlib.Data.List.TakeWhile
import Mathlib.Tactic.TypeStar

/-!
# The pieces of a list between its separators

`pieces p l` are the parts of `l` between the elements with `p`, without the empty ones; `Piece` says
where one stands.

* `pieces_gap`, `pieces_token`   one separator or one piece at the front;
* `pieces_intercalate`           pieces that are put together with a separator come back;
* `pieces_places`                the pieces are the maximal runs without a separator, in order.
-/

namespace Pieces

variable {α : Type*} {p : α → Bool} {l rest token gap : List α}

def pieces (p : α → Bool) (l : List α) : List (List α) := (l.splitOnP p).filter (· ≠ [])

theorem pieces_gap (h : ∀ c ∈ gap, p c = true) : pieces p (gap ++ l) = pieces p l := by
  induction gap with
  | nil => rfl
  | cons c gap ih =>
    rw [List.forall_mem_cons] at h
    rw [← ih h.2]
    unfold pieces
    rw [List.cons_append, List.splitOnP_cons_eq_if_modifyHead, if_pos h.1]
    rfl

theorem pieces_of_gap (h : ∀ c ∈ gap, p c = true) : pieces p gap = [] := by
  have hnil := pieces_gap (l := []) h
  rwa [List.append_nil] at hnil

theorem pieces_token (hne : token ≠ []) (h : ∀ c ∈ token, p c = false)
    (hrest : ∀ c ∈ rest.head?, p c = true) : pieces p (token ++ rest) = token :: pieces p rest := by
  cases rest with
  | nil =>
    unfold pieces
    rw [List.append_nil, List.splitOnP_eq_singleton h,
      List.filter_cons_of_pos (by simpa using hne)]
    rfl
  | cons c rest =>
    have hc : p c = true := hrest c rfl
    unfold pieces
    rw [List.splitOnP_append_cons_of_forall_mem h c hc, List.filter_cons_of_pos (by simpa using hne),
      List.splitOnP_cons_eq_if_modifyHead, if_pos hc]
    rfl

theorem pieces_intercalate [DecidableEq α] {d : α} {tokens : List (List α)}
    (h : ∀ t ∈ tokens, t ≠ [] ∧ d ∉ t) : pieces (· == d) ([d].intercalate tokens) = tokens := by
  by_cases hne : tokens = []
  · rw [hne]
    rfl
  · have hsplit := List.splitOn_intercalate d (fun t ht => (h t ht).2) hne
    rw [List.splitOn_eq_splitOnP] at hsplit
    unfold pieces
    rw [hsplit]
    exact List.filter_eq_self.mpr fun t ht => by simpa using (h t ht).1

theorem intercalate_append {sep : List α} {as bs : List (List α)} (ha : as ≠ []) (hb : bs ≠ []) :
    sep.intercalate (as ++ bs) = sep.intercalate as ++ (sep ++ sep.intercalate bs) := by
  induction as with
  | nil => exact absurd rfl ha
  | cons a as ih =>
    by_cases has : as = []
    · rw [has, List.singleton_append, List.intercalate_cons_of_ne_nil hb, List.intercalate_singleton,
        List.append_assoc]
    · rw [List.cons_append, List.intercalate_cons_of_ne_nil (by simp [has]),
        List.intercalate_cons_of_ne_nil has, ih has]
      simp only [List.append_assoc]

theorem mem_intercalate {sep : List α} {ts : List (List α)} {c : α} (h : c ∈ sep.intercalate ts) :
    c ∈ sep ∨ ∃ t ∈ ts, c ∈ t := by
  induction ts with
  | nil => cases h
  | cons t ts ih =>
    by_cases hts : ts = []
    · rw [hts, List.intercalate_singleton] at h
      exact Or.inr ⟨t, List.mem_cons_self, h⟩
    · rw [List.intercalate_cons_of_ne_nil hts, List.append_assoc, List.mem_append,
        List.mem_append] at h
      rcases h with h | h | h
      · exact Or.inr ⟨t, List.mem_cons_self, h⟩
      · exact Or.inl h
      · refine (ih h).imp_right ?_
        rintro ⟨t', ht', hc⟩
        exact ⟨t', List.mem_cons_of_mem _ ht', hc⟩

/-- a list is a gap, or starts with a gap and a piece -/
theorem gap_or_token (p : α → Bool) (l : List α) : (∀ c ∈ l, p c = true) ∨
    ∃ gap token rest, l = gap ++ (token ++ rest) ∧ (∀ c ∈ gap, p c = true) ∧ token ≠ [] ∧
      (∀ c ∈ token, p c = false) ∧ ∀ c ∈ rest.head?, p c = true := by
  cases hd : l.dropWhile p with
  | nil => exact Or.inl fun c hc => List.dropWhile_eq_nil_iff.mp hd c hc
  | cons c t =>
    right
    have hc : p c = false := by
      have := List.head_dropWhile_not p (l := l) (by rw [hd]; nofun)
      simpa [hd] using this
    refine ⟨l.takeWhile p, (c :: t).takeWhile (!p ·), (c :: t).dropWhile (!p ·), ?_,
      fun x hx => List.mem_takeWhile_imp hx, ?_, fun x hx => ?_, fun x hx => ?_⟩
    · rw [List.takeWhile_append_dropWhile, ← hd, List.takeWhile_append_dropWhile]
    · rw [List.takeWhile_cons_of_pos (by rw [hc]; rfl)]
      nofun
    · simpa using List.mem_takeWhile_imp hx
    · have := List.head?_dropWhile_not (!p ·) (c :: t)
      rw [Option.mem_def.mp hx] at this
      simpa using this

theorem findIdx?_split {p : α → Bool} {l : List α} {k : Nat} (h : l.findIdx? p = some k) :
    (∀ c ∈ l.take k, p c = false) ∧ ∃ c t, l.drop k = c :: t ∧ p c = true := by
  obtain ⟨hk, hp, hbefore⟩ := List.findIdx?_eq_some_iff_getElem.mp h
  refine ⟨fun c hc => ?_, l[k], l.drop (k + 1), List.drop_eq_getElem_cons hk, hp⟩
  obtain ⟨j, hj, rfl⟩ := List.mem_take_iff_getElem.mp hc
  simpa using hbefore j (by omega)

/-! ## where the pieces stand -/

/-- there is a separator at `k` -/
def SepAt (p : α → Bool) (l : List α) (k : Nat) : Prop := ∃ c, l[k]? = some c ∧ p c = true

/-- from `i` to `j` there is no separator, and none of the two ends could lie further out -/
structure Piece (p : α → Bool) (l : List α) (i j : Nat) : Prop where
  lt : i < j
  le : j ≤ l.length
  free : ∀ k, i ≤ k → k < j → ¬ SepAt p l k
  before : i = 0 ∨ SepAt p l (i - 1)
  after : j = l.length ∨ SepAt p l j

/-- the part of `l` from `i` to `j` -/
def part (l : List α) (r : Nat × Nat) : List α := (l.drop r.1).take (r.2 - r.1)

/-- no piece starts in the middle: from `o` on they are those of the rest -/
def Edge (p : α → Bool) (l : List α) (o : Nat) : Prop := o = 0 ∨ l.length ≤ o ∨ SepAt p l o

theorem places_from (n : Nat) {o : Nat} (hn : l.length - o ≤ n) (ho : Edge p l o) :
    ∃ places : List (Nat × Nat), pieces p (l.drop o) = places.map (part l) ∧
      places.Pairwise (fun a b => a.2 < b.1) ∧
      ∀ i j, (i, j) ∈ places ↔ o ≤ i ∧ Piece p l i j := by
  induction n generalizing o with
  | zero =>
    rw [List.drop_eq_nil_of_le (by omega)]
    refine ⟨[], rfl, List.Pairwise.nil, fun i j => iff_of_false (by simp) ?_⟩
    rintro ⟨hi, h⟩
    have := h.lt
    have := h.le
    omega
  | succ n ih =>
    have hat : ∀ k, o ≤ k → l[k]? = (l.drop o)[k - o]? := by
      intro k hk
      rw [List.getElem?_drop]
      congr 1
      omega
    have hlen : (l.drop o).length = l.length - o := List.length_drop
    rcases gap_or_token p (l.drop o) with hgap | ⟨gap, token, rest, hsplit, hgap, hne, htoken, hrest⟩
    · rw [pieces_of_gap hgap]
      refine ⟨[], rfl, List.Pairwise.nil, fun i j => iff_of_false (by simp) ?_⟩
      rintro ⟨hi, h⟩
      have hlt : i - o < (l.drop o).length := by
        have := h.lt
        have := h.le
        omega
      refine h.free i (Nat.le_refl i) h.lt ⟨(l.drop o)[i - o], ?_, hgap _ (List.getElem_mem hlt)⟩
      rw [hat i hi, List.getElem?_eq_getElem hlt]
    · have hpos := List.length_pos_iff.mpr hne
      have hlen' : gap.length + (token.length + rest.length) = l.length - o := by
        rw [← hlen, hsplit, List.length_append, List.length_append]
      -- the separators from `o` to the end of the piece
      have hg : ∀ k, o ≤ k → k < o + gap.length → SepAt p l k := by
        intro k hk hk'
        have hlt : k - o < gap.length := by omega
        refine ⟨gap[k - o], ?_, hgap _ (List.getElem_mem hlt)⟩
        rw [hat k hk, hsplit, List.getElem?_append_left hlt, List.getElem?_eq_getElem hlt]
      have ht : ∀ k, o + gap.length ≤ k → k < o + gap.length + token.length → ¬ SepAt p l k := by
        rintro k hk hk' ⟨c, hc, hp⟩
        have hlt : k - o - gap.length < token.length := by omega
        rw [hat k (by omega), hsplit, List.getElem?_append_right (by omega),
          List.getElem?_append_left hlt, List.getElem?_eq_getElem hlt, Option.some.injEq] at hc
        rw [← hc, htoken _ (List.getElem_mem hlt)] at hp
        cases hp
      have hr : o + gap.length + token.length = l.length ∨
          SepAt p l (o + gap.length + token.length) := by
        cases hc : rest.head? with
        | none =>
          rw [List.head?_eq_none_iff.mp hc, List.length_nil] at hlen'
          omega
        | some c =>
          refine Or.inr ⟨c, ?_, hrest c hc⟩
          rw [hat _ (by omega), hsplit, List.getElem?_append_right (by omega),
            List.getElem?_append_right (by omega), ← hc, List.head?_eq_getElem?]
          congr 1
          omega
      have hdrop : l.drop (o + gap.length + token.length) = rest := by
        rw [Nat.add_assoc, ← List.drop_drop, hsplit, ← List.append_assoc,
          List.drop_left' (by rw [List.length_append])]
      have hfirst : Piece p l (o + gap.length) (o + gap.length + token.length) := by
        refine ⟨by omega, by omega, ht, ?_, hr⟩
        by_cases h0 : gap.length = 0
        · rcases ho with ho | ho | ho
          · exact Or.inl (by omega)
          · omega
          · exact absurd ho (ht o (by omega) (by omega))
        · exact Or.inr (hg _ (by omega) (by omega))
      obtain ⟨places, hmap, hsorted, hmem⟩ := ih (o := o + gap.length + token.length)
        (by omega) (Or.inr (hr.imp (fun h => Nat.le_of_eq h.symm) id))
      refine ⟨(o + gap.length, o + gap.length + token.length) :: places, ?_, ?_, fun i j => ?_⟩
      · have hpart : part l (o + gap.length, o + gap.length + token.length) = token := by
          unfold part
          rw [← List.drop_drop, hsplit, List.drop_left, Nat.add_sub_cancel_left, List.take_left]
        rw [hsplit, pieces_gap hgap, pieces_token hne htoken hrest, List.map_cons, hpart, ← hmap,
          hdrop]
      · refine List.Pairwise.cons (fun b hb => ?_) hsorted
        obtain ⟨hle, hb⟩ := (hmem b.1 b.2).mp hb
        -- a separator stands at the end of the first piece
        rcases hr with hr | hr
        · have := hb.lt
          have := hb.le
          omega
        · refine Nat.lt_of_le_of_ne hle fun he => hb.free b.1 (Nat.le_refl _) hb.lt ?_
          rw [← he]
          exact hr
      · rw [List.mem_cons, hmem, Prod.mk.injEq]
        constructor
        · rintro (⟨rfl, rfl⟩ | ⟨hle, h⟩)
          · exact ⟨by omega, hfirst⟩
          · exact ⟨by omega, h⟩
        · rintro ⟨hi, h⟩
          have hlt := h.lt
          have hle := h.le
          rcases Nat.lt_or_ge i (o + gap.length) with h1 | h1
          · exact absurd (hg i hi h1) (h.free i (Nat.le_refl i) hlt)
          rcases Nat.lt_or_ge i (o + gap.length + token.length) with h2 | h2
          · left
            have hi' : i = o + gap.length := by
              by_contra hni
              rcases h.before with h0 | h0
              · omega
              · exact ht (i - 1) (by omega) (by omega) h0
            subst hi'
            refine ⟨rfl, ?_⟩
            by_contra hnj
            rcases Nat.lt_or_gt_of_ne hnj with hj | hj
            · rcases h.after with h3 | h3
              · omega
              · exact ht j (by omega) hj h3
            · rcases hr with h3 | h3
              · omega
              · exact h.free _ (by omega) hj h3
          · exact Or.inr ⟨h2, h⟩

/-- **The places.**  The pieces are the maximal runs without a separator, from the left to the
right. -/
theorem pieces_places (p : α → Bool) (l : List α) :
    ∃ places : List (Nat × Nat), pieces p l = places.map (part l) ∧
      places.Pairwise (fun a b => a.2 < b.1) ∧ ∀ i j, (i, j) ∈ places ↔ Piece p l i j := by
  obtain ⟨places, hmap, hsorted, hmem⟩ := places_from (p := p) (l := l) (o := 0) l.length
    (Nat.le_refl _) (Or.inl rfl)
  exact ⟨places, hmap, hsorted, fun i j => (hmem i j).trans (and_iff_right (Nat.zero_le i))⟩

end Pieces
