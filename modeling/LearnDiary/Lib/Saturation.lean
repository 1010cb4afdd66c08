import LearnDiary.Lib.Loop
import Mathlib.Data.List.Nodup
import Mathlib.Data.List.Perm.Subperm

/-!
# Saturating a finite set by passes over a list

A set is kept as a list without repetitions.  A pass goes over the items of a list; an item whose
head is in the set brings its body in.  Passes are repeated until one adds nothing.

* `mem_insertAll`     a range is inserted;
* `Reach`             what the seeds lead to;
* `saturate_returns`  the passes end, with exactly what the seeds lead to.
-/

namespace Saturation
variable {α ι : Type*} [DecidableEq α]

def insertAll (s : List α) (l : List α) : List α := l.foldl (fun s a => List.insert a s) s

section
variable {s t l : List α} {a : α}

theorem mem_insertAll : a ∈ insertAll s l ↔ a ∈ s ∨ a ∈ l := by
  induction l generalizing s with
  | nil => simp [insertAll]
  | cons b l ih =>
    show a ∈ insertAll (List.insert b s) l ↔ _
    rw [ih, List.mem_insert_iff, List.mem_cons]
    constructor
    · rintro ((h | h) | h)
      · exact .inr (.inl h)
      · exact .inl h
      · exact .inr (.inr h)
    · rintro (h | h | h)
      · exact .inl (.inr h)
      · exact .inl (.inl h)
      · exact .inr h

theorem nodup_insertAll (h : s.Nodup) : (insertAll s l).Nodup := by
  induction l generalizing s with
  | nil => exact h
  | cons b l ih => exact ih (List.Nodup.insert h)

theorem insertAll_of_subset (h : l ⊆ s) : insertAll s l = s := by
  induction l with
  | nil => rfl
  | cons b l ih =>
    show insertAll (List.insert b s) l = s
    rw [List.insert_of_mem (h List.mem_cons_self)]
    exact ih (fun x hx => h (List.mem_cons_of_mem b hx))

end

section
variable (own : ι → Bool) (head : ι → α) (body : ι → List α)

def visit (s : List α) (it : ι) : List α :=
  if own it && head it ∈ s then insertAll s (body it) else s

def pass (l : List ι) (s : List α) : List α := l.foldl (visit own head body) s

/-- passes until one adds nothing -/
def turn (l : List ι) (s : List α) : Loop.Turn (List α) :=
  let s' := pass own head body l s
  if s.length ≥ s'.length then .ret s' else .again s'

/-- what the seeds lead to: the seeds, and with the head of an item its body -/
inductive Reach (l : List ι) (seed : α → Prop) : α → Prop where
  | seed {a : α} : seed a → Reach l seed a
  | next {it : ι} {a : α} : it ∈ l → own it = true → Reach l seed (head it) → a ∈ body it →
      Reach l seed a

end

section
variable {own : ι → Bool} {head : ι → α} {body : ι → List α} {l l' : List ι} {s : List α} {a : α}

theorem subset_visit (s : List α) (it : ι) : s ⊆ visit own head body s it := by
  unfold visit
  intro x hx
  split
  · exact mem_insertAll.mpr (.inl hx)
  · exact hx

theorem subset_pass (l : List ι) (s : List α) : s ⊆ pass own head body l s := by
  induction l generalizing s with
  | nil => exact fun _ hx => hx
  | cons it l ih => exact fun _ hx => ih _ (subset_visit s it hx)

theorem nodup_pass (h : s.Nodup) : (pass own head body l s).Nodup := by
  induction l generalizing s with
  | nil => exact h
  | cons it l ih =>
    apply ih
    unfold visit
    split
    · exact nodup_insertAll h
    · exact h

theorem body_subset_pass {it : ι} (hit : it ∈ l) (how : own it = true) (hs : head it ∈ s) :
    body it ⊆ pass own head body l s := by
  induction l generalizing s with
  | nil => nomatch hit
  | cons i l ih =>
    rcases List.mem_cons.mp hit with rfl | hit
    · intro x hx
      refine subset_pass l _ ?_
      rw [visit, if_pos (by rw [how, decide_eq_true hs]; rfl)]
      exact mem_insertAll.mpr (.inr hx)
    · exact ih hit (subset_visit s i hs)

theorem pass_reach {seed : α → Prop} (hl : ∀ it ∈ l', it ∈ l)
    (hs : ∀ x ∈ s, Reach own head body l seed x) :
    ∀ x ∈ pass own head body l' s, Reach own head body l seed x := by
  induction l' generalizing s with
  | nil => exact hs
  | cons i l' ih =>
    refine ih (fun it hit => hl it (List.mem_cons_of_mem i hit)) ?_
    intro x hx
    by_cases hi : (own i && head i ∈ s) = true
    · rw [visit, if_pos hi] at hx
      rw [Bool.and_eq_true, decide_eq_true_iff] at hi
      rcases mem_insertAll.mp hx with hx | hx
      · exact hs x hx
      · exact .next (hl i List.mem_cons_self) hi.1 (hs _ hi.2) hx
    · rw [visit, if_neg hi] at hx
      exact hs x hx

omit [DecidableEq α] in
/-- a set that no pass can enlarge holds all it leads to -/
theorem Reach.mem {seed : α → Prop} (h : Reach own head body l seed a) (hseed : ∀ x, seed x → x ∈ s)
    (hc : ∀ it ∈ l, own it = true → head it ∈ s → body it ⊆ s) : a ∈ s := by
  induction h with
  | seed h => exact hseed _ h
  | next hit how _ ha ih => exact hc _ hit how ih ha

/-- **Saturation**: the passes end, and leave exactly what the set they start with leads to. -/
theorem saturate_returns (own : ι → Bool) (head : ι → α) (body : ι → List α) (l : List ι)
    (hs : s.Nodup) : ∃ r, Loop.Returns (turn own head body l) s r ∧
    r.Nodup ∧ (∀ x, x ∈ r ↔ Reach own head body l (· ∈ s) x) ∧
    ∀ it ∈ l, own it = true → head it ∈ r → body it ⊆ r := by
  -- the states of the loop lie between the seeds and what they lead to
  let P : List α → Prop := fun t =>
    t.Nodup ∧ s ⊆ t ∧ ∀ x ∈ t, Reach own head body l (· ∈ s) x
  have hpass : ∀ t, P t → P (pass own head body l t) := by
    intro t ⟨hn, hst, ht⟩
    exact ⟨nodup_pass hn, fun x hx => subset_pass l t (hst hx), pass_reach (fun _ h => h) ht⟩
  have h0 : P s := ⟨hs, fun _ h => h, fun x hx => .seed hx⟩
  -- what can come in is in one of the bodies
  let all := s ++ l.flatMap body
  have hall : ∀ t, P t → t.length ≤ all.length := by
    intro t ⟨hn, _, ht⟩
    refine (List.subperm_of_subset hn ?_).length_le
    intro x hx
    cases ht x hx with
    | seed h => exact List.mem_append_left _ h
    | next hit _ _ hb => exact List.mem_append_right _ (List.mem_flatMap.mpr ⟨_, hit, hb⟩)
  have hstops : Loop.Stops (turn own head body l) s := by
    refine Loop.Stops.of_measure P (fun t => all.length - t.length) ?_ h0
    intro t u ht he
    unfold turn at he
    dsimp only at he
    split at he
    · cases he
    · cases he
      have := hall _ (hpass t ht)
      refine ⟨hpass t ht, ?_⟩
      omega
  obtain ⟨r, hr⟩ := hstops.returns (fun t _ he => by
    unfold turn at he
    dsimp only at he
    split at he <;> cases he)
  refine ⟨r, hr, ?_⟩
  obtain ⟨t, hreach, ht⟩ := hr.last
  have hPt : P t := hreach.keep (fun u v hu he => by
    unfold turn at he
    dsimp only at he
    split at he
    · cases he
    · cases he
      exact hpass u hu) h0
  unfold turn at ht
  dsimp only at ht
  split at ht
  · rename_i hle
    cases ht
    have hP := hpass t hPt
    -- the last pass added nothing
    have hback : pass own head body l t ⊆ t :=
      ((List.subperm_of_subset hPt.1 (subset_pass l t)).perm_of_length_le hle).symm.subset
    have hc : ∀ it ∈ l, own it = true → head it ∈ pass own head body l t →
        body it ⊆ pass own head body l t :=
      fun it hit how hh => body_subset_pass hit how (hback hh)
    exact ⟨hP.1, fun x => ⟨hP.2.2 x, fun hx => hx.mem (fun y hy => hP.2.1 hy) hc⟩, hc⟩
  · cases ht

end
end Saturation
