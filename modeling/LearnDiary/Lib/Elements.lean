import Mathlib.Data.List.Flatten
import Mathlib.Data.List.Nodup
import Mathlib.Logic.Function.Basic

/-!
# Lists that change in one place

* `map_set_same`, `map_modify_same`   what a function sees of a list does not change with an element
                                      that it sees the same;
* `eraseIdx_eq_filter`   an element that alone fails a test is taken out by the test;
* `mem_update`   what is in the lists of a family of which one has changed.
-/

namespace Elements
variable {α β : Type*}

theorem map_set_same {f : α → β} {l : List α} {i : Nat} {x y : α} (hi : l[i]? = some x)
    (h : f y = f x) : (l.set i y).map f = l.map f := by
  obtain ⟨hlt, rfl⟩ := List.getElem?_eq_some_iff.mp hi
  have hlt' : i < (l.map f).length := by rwa [List.length_map]
  have hat : (l.map f)[i] = f l[i] := List.getElem_map f
  rw [List.map_set, h, ← hat]
  exact List.set_getElem_self hlt'

theorem flatMap_set_same {f : α → List β} {l : List α} {i : Nat} {x y : α} (hi : l[i]? = some x)
    (h : f y = f x) : (l.set i y).flatMap f = l.flatMap f := by
  rw [List.flatMap_def, List.flatMap_def, map_set_same hi h]

theorem map_modify_same {f : α → β} {g : α → α} (h : ∀ x, f (g x) = f x) (l : List α) (i : Nat) :
    (l.modify i g).map f = l.map f := by
  apply List.ext_getElem?
  intro j
  rw [List.getElem?_map, List.getElem?_map, List.getElem?_modify]
  cases l[j]? with
  | none => rfl
  | some x =>
    show some (f (if i = j then g x else x)) = some (f x)
    split
    · rw [h]
    · rfl

theorem eraseIdx_eq_filter {l : List α} {i : Nat} {p : α → Bool}
    (hi : ∀ x, l[i]? = some x → p x = false) (hrest : ∀ j x, l[j]? = some x → j ≠ i → p x = true)
    (hlt : i < l.length) : l.eraseIdx i = l.filter p := by
  induction l generalizing i with
  | nil => cases hlt
  | cons y l ih =>
    cases i with
    | zero =>
      have hall : l.filter p = l := by
        refine List.filter_eq_self.mpr (fun x hx => ?_)
        obtain ⟨j, hj⟩ := List.mem_iff_getElem?.mp hx
        exact hrest (j + 1) x hj (Nat.succ_ne_zero j)
      rw [List.eraseIdx_cons_zero, List.filter_cons_of_neg, hall]
      rw [hi y rfl]
      exact Bool.false_ne_true
    | succ i =>
      rw [List.eraseIdx_cons_succ, List.filter_cons_of_pos (hrest 0 y rfl (Nat.succ_ne_zero i).symm)]
      congr 1
      refine ih (fun x hx => hi x hx) (fun j x hx hj => ?_) (Nat.lt_of_succ_lt_succ hlt)
      exact hrest (j + 1) x hx (fun he => hj (Nat.succ.inj he))

theorem mem_update {ι : Type*} [DecidableEq ι] {F : ι → List α} {i j : ι} {l : List α} {x : α}
    (h : x ∈ Function.update F i l j) : x ∈ F j ∨ j = i ∧ x ∈ l := by
  by_cases e : j = i
  · subst e
    rw [Function.update_self] at h
    exact Or.inr ⟨rfl, h⟩
  · rw [Function.update_of_ne e] at h
    exact Or.inl h

end Elements
