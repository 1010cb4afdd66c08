import Mathlib.Data.List.Sort

/-!
# Binary heaps in a sequence

The heap operations of the C++ standard library on a sequence, by what their documentation says of
them: `lt` is the comparison they are called with, and the front of a heap is an element that is
less than no other.

* `IsHeap.front`   no element of a heap is above its front;
* `pop_back`       `pop_heap` and `pop_back` take the front away and leave a heap of the rest.
-/

section
variable {α : Type*}

/-- no element is less than one of its children -/
def IsHeap (lt : α → α → Bool) (l : List α) : Prop :=
  ∀ i (hi : i < l.length), 0 < i → lt (getElem l ((i - 1) / 2) (by omega)) l[i] = false

theorem isHeap_nil (lt : α → α → Bool) : IsHeap lt [] :=
  fun _ hi => nomatch hi

/-- what `std::make_heap`, `std::push_heap` and `std::pop_heap` promise -/
structure StdHeap (lt : α → α → Bool) where
  makeHeap : List α → List α
  pushHeap : List α → List α
  popHeap : List α → List α
  make_perm : ∀ l, (makeHeap l).Perm l
  make_isHeap : ∀ l, IsHeap lt (makeHeap l)
  push_perm : ∀ l, (pushHeap l).Perm l
  push_isHeap : ∀ l, IsHeap lt l.dropLast → IsHeap lt (pushHeap l)
  pop_perm : ∀ l, (popHeap l).Perm l
  pop_last : ∀ l, IsHeap lt l → (popHeap l).getLast? = l.head?
  pop_isHeap : ∀ l, IsHeap lt l → IsHeap lt (popHeap l).dropLast

section
variable {lt : α → α → Bool} {l : List α} {a b : α}

theorem IsHeap.map {f : α → α} (hf : ∀ a b, lt (f a) (f b) = lt a b) (h : IsHeap lt l) :
    IsHeap lt (l.map f) := by
  intro i hi h0
  rw [List.length_map] at hi
  rw [List.getElem_map, List.getElem_map, hf]
  exact h i hi h0

theorem isHeap_of_pairwise (h : l.Pairwise (fun a b => lt a b = false)) : IsHeap lt l := by
  intro i hi h0
  exact List.pairwise_iff_getElem.mp h ((i - 1) / 2) i (by omega) hi (by omega)

/-- **the front of a heap is less than no element**: along the parents up to the root -/
theorem IsHeap.front (h : IsHeap lt (a :: l)) (hirr : ∀ a, lt a a = false)
    (htrans : ∀ a b c, lt a b = false → lt b c = false → lt a c = false) (hb : b ∈ a :: l) :
    lt a b = false := by
  have key : ∀ i (hi : i < (a :: l).length), lt a (a :: l)[i] = false := by
    intro i
    induction i using Nat.strongRecOn with
    | ind i ih =>
      intro hi
      rcases Nat.eq_zero_or_pos i with rfl | h0
      · exact hirr a
      · have hp : (i - 1) / 2 < i := by omega
        exact htrans _ _ _ (ih _ hp (by omega)) (h i hi h0)
  obtain ⟨i, hi, rfl⟩ := List.getElem_of_mem hb
  exact key i hi

theorem pop_back (std : StdHeap lt) (h : IsHeap lt (a :: l)) :
    (std.popHeap (a :: l)).dropLast.Perm l ∧ IsHeap lt (std.popHeap (a :: l)).dropLast := by
  refine ⟨?_, std.pop_isHeap _ h⟩
  have hlast : (std.popHeap (a :: l)).getLast? = some a := std.pop_last _ h
  obtain ⟨ini, hini⟩ := List.getLast?_eq_some_iff.mp hlast
  have hperm : (ini ++ [a]).Perm (a :: l) := hini ▸ std.pop_perm (a :: l)
  rw [hini, List.dropLast_concat]
  exact (List.perm_cons a).mp ((List.perm_append_singleton a ini).symm.trans hperm)

theorem push_back (std : StdHeap lt) (h : IsHeap lt l) (a : α) :
    (std.pushHeap (l ++ [a])).Perm (a :: l) ∧ IsHeap lt (std.pushHeap (l ++ [a])) := by
  constructor
  · exact (std.push_perm _).trans (List.perm_append_singleton a l)
  · apply std.push_isHeap
    rw [List.dropLast_concat]
    exact h

end

section
variable (key : α → Nat)

def above (a b : α) : Bool := decide (key b < key a)

/-- the elements by their keys, the smallest in front -/
def sortKeys (l : List α) : List α := l.insertionSort (fun a b => key a ≤ key b)

/-- the front of the sequence goes to its end -/
def popKeys : List α → List α
  | [] => []
  | a :: l => sortKeys key l ++ [a]

theorem sortKeys_perm (l : List α) : (sortKeys key l).Perm l := List.perm_insertionSort _ l

theorem sortKeys_isHeap (l : List α) : IsHeap (above key) (sortKeys key l) := by
  apply isHeap_of_pairwise
  have : IsTrans α (fun a b => key a ≤ key b) := ⟨fun _ _ _ => Nat.le_trans⟩
  have : Std.Total (fun a b : α => key a ≤ key b) := ⟨fun _ _ => Nat.le_total _ _⟩
  refine (List.pairwise_insertionSort (fun a b => key a ≤ key b) l).imp ?_
  intro a b hab
  exact decide_eq_false (Nat.not_lt.mpr hab)

/-- the operations by sorting: a sequence in order is a heap -/
def StdHeap.ofKey : StdHeap (above key) where
  makeHeap := sortKeys key
  pushHeap := sortKeys key
  popHeap := popKeys key
  make_perm := sortKeys_perm key
  make_isHeap := sortKeys_isHeap key
  push_perm := sortKeys_perm key
  push_isHeap := fun l _ => sortKeys_isHeap key l
  pop_perm := by
    intro l
    cases l with
    | nil => exact .refl _
    | cons a l =>
      exact (List.perm_append_singleton a _).trans ((sortKeys_perm key l).cons a)
  pop_last := by
    intro l _
    cases l with
    | nil => rfl
    | cons a l => exact List.getLast?_concat
  pop_isHeap := by
    intro l _
    cases l with
    | nil => exact isHeap_nil _
    | cons a l =>
      rw [popKeys, List.dropLast_concat]
      exact sortKeys_isHeap key l

end
end
