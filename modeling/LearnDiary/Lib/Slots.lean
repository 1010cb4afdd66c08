import Mathlib.Data.List.Basic

/-!
# What the slots of a list hold

A slot may hold a resource; `held slot 0 l` lists what the slots of `l` hold with their positions.

* `held_set`      putting something else into a slot changes its entry alone;
* `length_held`   how many slots hold something;
* `held_empty`    nothing is held where no slot holds something.
-/

namespace Slots
variable {α β : Type*} (slot : α → Option β)

/-- the entry of the slot at `i` -/
def entry (i : Nat) (x : α) : List (Nat × β) := (slot x).toList.map fun r => (i, r)

/-- what the slots hold, the first one being at `k` -/
def held : Nat → List α → List (Nat × β)
  | _, [] => []
  | k, x :: l => entry slot k x ++ held (k + 1) l

variable {slot}

theorem entry_none {i : Nat} {x : α} (h : slot x = none) : entry slot i x = [] := by
  unfold entry
  rw [h]
  rfl

theorem entry_some {i : Nat} {x : α} {r : β} (h : slot x = some r) : entry slot i x = [(i, r)] := by
  unfold entry
  rw [h]
  rfl

theorem held_set (slot : α → Option β) {l : List α} {i : Nat} {x : α} (k : Nat) (h : l[i]? = some x) :
    ∃ A B, held slot k l = A ++ entry slot (k + i) x ++ B ∧
      ∀ y, held slot k (l.set i y) = A ++ entry slot (k + i) y ++ B := by
  induction l generalizing k i with
  | nil => cases h
  | cons z l ih =>
    cases i with
    | zero =>
      obtain rfl : z = x := Option.some.inj h
      exact ⟨[], held slot (k + 1) l, rfl, fun y => rfl⟩
    | succ i =>
      obtain ⟨A, B, hA, hB⟩ := ih (k + 1) h
      have hi : k + 1 + i = k + (i + 1) := by omega
      rw [hi] at hA hB
      refine ⟨entry slot k z ++ A, B, ?_, ?_⟩
      · show entry slot k z ++ held slot (k + 1) l = _
        rw [hA, List.append_assoc, List.append_assoc, List.append_assoc]
      · intro y
        show entry slot k z ++ held slot (k + 1) (l.set i y) = _
        rw [hB, List.append_assoc, List.append_assoc, List.append_assoc]

theorem length_held (k : Nat) (l : List α) :
    (held slot k l).length = l.countP fun x => (slot x).isSome := by
  induction l generalizing k with
  | nil => rfl
  | cons x l ih =>
    unfold held
    rw [List.length_append, ih, List.countP_cons]
    cases hx : slot x with
    | none =>
      rw [entry_none hx]
      exact Nat.zero_add _
    | some r =>
      rw [entry_some hx]
      exact Nat.add_comm _ _

theorem held_empty {l : List α} (k : Nat) (h : ∀ x ∈ l, slot x = none) : held slot k l = [] := by
  induction l generalizing k with
  | nil => rfl
  | cons x l ih =>
    unfold held
    rw [entry_none (h x List.mem_cons_self), ih _ fun y hy => h y (List.mem_cons_of_mem _ hy)]
    rfl

end Slots
