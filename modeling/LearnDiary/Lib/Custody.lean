import LearnDiary.Lib.Runs
import Mathlib.Data.List.Basic
import Mathlib.Data.List.Nodup

/-!
# Resources opened and closed along a log

Each resource is opened by an owner, who has to close it.  `record` keeps the book of what is open;
it fails where a resource is opened that is open, or closed by someone who does not have it.

* `Books.add`, `Books.others`  one entry more, and entries about something else;
* `opened_eq`                  the book lists what is open, whoever opened it.
-/

namespace Custody
open Runs

inductive Deal (ω ρ : Type) where
  | opens (owner : ω) (r : ρ)
  | closes (owner : ω) (r : ρ)
  | other

section
variable {ω ρ : Type} [DecidableEq ω] [DecidableEq ρ]

def record : List (ω × ρ) → Deal ω ρ → Option (List (ω × ρ))
  | t, .opens o r => if r ∈ t.map Prod.snd then none else some ((o, r) :: t)
  | t, .closes o r => if (o, r) ∈ t then some (t.erase (o, r)) else none
  | t, .other => some t

/-- what is open, without the owners -/
def opened : List (Deal ω ρ) → List ρ :=
  List.foldl (fun l d => match d with
    | .opens _ r => r :: l
    | .closes _ r => l.erase r
    | .other => l) []

/-- the book of a log at each moment of which at most `max` resources are open -/
structure Books (max : Nat) (log : List (Deal ω ρ)) (t : List (ω × ρ)) : Prop where
  book : exec record [] log = some t
  within : ∀ l, l <+: log → ∃ u, exec record [] l = some u ∧ u.length ≤ max

variable {max : Nat} {log : List (Deal ω ρ)} {t t' : List (ω × ρ)} {d : Deal ω ρ}

theorem Books.nil (max : Nat) : Books max ([] : List (Deal ω ρ)) [] := by
  refine ⟨rfl, ?_⟩
  intro l hl
  rw [List.prefix_nil.mp hl]
  exact ⟨[], rfl, Nat.zero_le _⟩

theorem Books.add (h : Books max log t) (hd : record t d = some t') (hmax : t'.length ≤ max) :
    Books max (log ++ [d]) t' := by
  have hall : exec record [] (log ++ [d]) = some t' := by
    rw [exec_append, h.book]
    show (record t d).bind _ = _
    rw [hd]
    rfl
  refine ⟨hall, ?_⟩
  intro l hl
  rcases List.prefix_concat_iff.mp hl with rfl | hl
  · exact ⟨t', hall, hmax⟩
  · exact h.within l hl

theorem Books.length_le (h : Books max log t) : t.length ≤ max := by
  obtain ⟨u, hu, hmax⟩ := h.within log (List.prefix_rfl)
  rw [h.book] at hu
  cases hu
  exact hmax

theorem Books.others {l : List (Deal ω ρ)} (h : Books max log t) (hl : ∀ d ∈ l, d = .other) :
    Books max (log ++ l) t := by
  induction l generalizing log with
  | nil =>
    rw [List.append_nil]
    exact h
  | cons d l ih =>
    have hd := hl d List.mem_cons_self
    subst hd
    have hone := h.add (d := .other) rfl h.length_le
    have hrest := ih hone fun e he => hl e (List.mem_cons_of_mem _ he)
    rwa [List.append_assoc] at hrest

theorem map_erase {o : ω} {r : ρ} (hn : (t.map Prod.snd).Nodup) (h : (o, r) ∈ t) :
    (t.erase (o, r)).map Prod.snd = (t.map Prod.snd).erase r := by
  induction t with
  | nil => cases h
  | cons e t ih =>
    rw [List.map_cons, List.nodup_cons] at hn
    by_cases he : e = (o, r)
    · subst he
      rw [List.erase_cons_head, List.map_cons, List.erase_cons_head]
    · have hmem : (o, r) ∈ t := (List.mem_cons.mp h).resolve_left (Ne.symm he)
      have hr : e.2 ≠ r := by
        intro hr
        refine hn.1 ?_
        rw [hr]
        exact List.mem_map.mpr ⟨_, hmem, rfl⟩
      rw [List.erase_cons_tail (by simpa using he), List.map_cons, List.map_cons,
        List.erase_cons_tail (by simpa using hr), ih hn.2 hmem]

/-- **The book lists what is open, each resource once.** -/
theorem opened_eq (h : exec record [] log = some t) :
    opened log = t.map Prod.snd ∧ (t.map Prod.snd).Nodup := by
  refine exec_keep (P := fun l t => opened l = t.map Prod.snd ∧ (t.map Prod.snd).Nodup) ?_
    ⟨rfl, List.nodup_nil⟩ h
  rintro l t d t' ⟨ho, hn⟩ hd
  unfold opened at ho ⊢
  rw [List.foldl_append, ho]
  cases d with
  | opens o r =>
    rw [record] at hd
    split at hd
    · cases hd
    · rename_i hr
      cases hd
      exact ⟨rfl, List.nodup_cons.mpr ⟨hr, hn⟩⟩
  | closes o r =>
    rw [record] at hd
    split at hd
    · rename_i hmem
      cases hd
      have he := map_erase hn hmem
      refine ⟨he.symm, ?_⟩
      rw [he]
      exact hn.erase r
    · cases hd
  | other =>
    cases hd
    exact ⟨rfl, hn⟩

end

end Custody
