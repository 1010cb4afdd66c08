import Mathlib.Data.List.Basic
import Mathlib.Data.List.InsertIdx

/-!
# A growing array and pointers into it

A `Vec` has its elements in one block.  Adding to a full one moves them to a new block and frees
the old one; removing one moves those behind it down.  A pointer is a block and an index: what it
points at is what stands there now.
-/

structure Vec (α : Type*) where
  block : Nat := 0
  cap : Nat := 0
  elems : List α := []

namespace Vec
variable {α β : Type*}

structure Ptr where
  block : Nat
  idx : Nat
deriving DecidableEq

/-- `room` is the capacity of the new block where one is needed -/
def push (v : Vec α) (a : α) (room : Nat) : Option (Vec α) :=
  if v.elems.length < v.cap then some { v with elems := v.elems ++ [a] }
  else if v.elems.length < room then some ⟨v.block + 1, room, v.elems ++ [a]⟩
  else none

def backPtr (v : Vec α) : Ptr := ⟨v.block, v.elems.length - 1⟩

def erase (v : Vec α) (i : Nat) : Vec α := { v with elems := v.elems.eraseIdx i }

def map (f : α → β) (v : Vec α) : Vec β := ⟨v.block, v.cap, v.elems.map f⟩

/-- a write through a pointer: none into a freed block, and to no element behind the last -/
def write (v : Vec α) (p : Ptr) (f : α → α) : Option (Vec α) :=
  if p.block = v.block then some { v with elems := v.elems.modify p.idx f } else none

def deref (v : Vec α) (p : Ptr) : Option α := if p.block = v.block then v.elems[p.idx]? else none

section
variable {v w : Vec α} {a x : α} {p : Ptr} {room i : Nat}

theorem deref_iff : v.deref p = some x ↔ p.block = v.block ∧ v.elems[p.idx]? = some x := by
  unfold deref
  split
  · rename_i hb
    exact (and_iff_right hb).symm
  · rename_i hb
    refine ⟨fun h => ?_, fun h => absurd h.1 hb⟩
    cases h

theorem push_map (f : α → β) (h : v.push a room = some w) :
    (v.map f).push (f a) room = some (w.map f) := by
  unfold push at h ⊢
  show (if (v.elems.map f).length < v.cap then _ else _) = _
  rw [List.length_map]
  split at h
  · rename_i hr
    cases h
    rw [if_pos hr]
    unfold map
    rw [List.map_append]
    rfl
  · rename_i hr
    split at h
    · rename_i hr'
      cases h
      rw [if_neg hr]
      show (if (v.elems.map f).length < room then _ else _) = _
      rw [List.length_map, if_pos hr']
      unfold map
      rw [List.map_append]
      rfl
    · cases h

theorem backPtr_map (v : Vec α) (f : α → β) : (v.map f).backPtr = v.backPtr := by
  unfold backPtr map
  rw [List.length_map]

theorem erase_map (f : α → β) : (v.erase i).map f = (v.map f).erase i := by
  unfold erase map
  show Vec.mk v.block v.cap ((v.elems.eraseIdx i).map f) = ⟨v.block, v.cap, (v.elems.map f).eraseIdx i⟩
  rw [List.eraseIdx_map]

theorem push_elems (h : v.push a room = some w) : w.elems = v.elems ++ [a] := by
  unfold push at h
  split at h
  · cases h
    rfl
  · split at h
    · cases h
      rfl
    · cases h

theorem deref_backPtr (h : v.push a room = some w) : w.deref w.backPtr = some a := by
  refine deref_iff.mpr ⟨rfl, ?_⟩
  show w.elems[w.elems.length - 1]? = some a
  rw [push_elems h, List.length_append]
  show (v.elems ++ [a])[v.elems.length + 1 - 1]? = some a
  rw [Nat.add_sub_cancel, List.getElem?_append_right (Nat.le_refl _), Nat.sub_self]
  rfl

/-- a pointer stays with its element while there is room -/
theorem deref_push (h : v.push a room = some w) (hroom : v.elems.length < v.cap)
    (hp : v.deref p = some x) : w.deref p = some x := by
  unfold push at h
  rw [if_pos hroom] at h
  cases h
  obtain ⟨hb, hx⟩ := deref_iff.mp hp
  have hlt := (List.getElem?_eq_some_iff.mp hx).1
  refine deref_iff.mpr ⟨hb, ?_⟩
  show (v.elems ++ [a])[p.idx]? = some x
  rw [List.getElem?_append_left hlt]
  exact hx

theorem deref_erase (hi : p.idx < i) (hp : v.deref p = some x) : (v.erase i).deref p = some x := by
  obtain ⟨hb, hx⟩ := deref_iff.mp hp
  refine deref_iff.mpr ⟨hb, ?_⟩
  show (v.elems.eraseIdx i)[p.idx]? = some x
  rw [List.getElem?_eraseIdx_of_lt hi]
  exact hx

end

end Vec
