import Mathlib.Data.List.Basic
import Mathlib.Data.List.TakeWhile

/-!
# First occurrence of a pattern in a list

`find pat s` is the first position of `s` at which `pat` stands, `upTo p s` the part of `s` before
its first element satisfying `p`.  What is used of them:

* `find_spec`, `find_eq_some`    a hit is an occurrence with none before it, and conversely;
* `find_append`                  a hit stays the hit when the list grows at its end;
* `find_skip`                    elements that differ from the head of the pattern are skipped;
* `find_none_iff`                there is no hit exactly when there is no occurrence;
* `findUpTo_append`              the same for a search that stops at the first `p`-element.
-/

set_option linter.unusedSectionVars false

namespace Find
variable {α : Type*}

section
variable [DecidableEq α]

/-- first position of `pat` in the list -/
def find (pat : List α) : List α → Option Nat
  | [] => if pat = [] then some 0 else none
  | c :: t => if pat <+: c :: t then some 0 else (find pat t).map (· + 1)

theorem find_cons {pat t : List α} {c : α} (h : ¬ pat <+: c :: t) :
    find pat (c :: t) = (find pat t).map (· + 1) := if_neg h

theorem find_spec {pat s : List α} {p : Nat} (h : find pat s = some p) :
    pat <+: s.drop p ∧ ∀ q, q < p → ¬ pat <+: s.drop q := by
  induction s generalizing p with
  | nil =>
    unfold find at h
    split at h
    · rename_i e
      cases h
      exact ⟨by rw [e]; exact List.nil_prefix , fun q hq => absurd hq (Nat.not_lt_zero q)⟩
    · cases h
  | cons c t ih =>
    unfold find at h
    split at h
    · rename_i hp
      cases h
      exact ⟨hp, fun q hq => absurd hq (Nat.not_lt_zero q)⟩
    · rename_i hp
      obtain ⟨p', hp', rfl⟩ := Option.map_eq_some_iff.mp h
      obtain ⟨h1, h2⟩ := ih hp'
      refine ⟨h1, fun q hq => ?_⟩
      cases q with
      | zero => exact hp
      | succ q => exact h2 q (by omega)

theorem find_le {pat s : List α} {p : Nat} (h : find pat s = some p) : p ≤ s.length := by
  induction s generalizing p with
  | nil =>
    unfold find at h
    split at h
    · cases h; exact Nat.le_refl _
    · cases h
  | cons c t ih =>
    unfold find at h
    split at h
    · cases h; exact Nat.zero_le _
    · obtain ⟨p', hp', rfl⟩ := Option.map_eq_some_iff.mp h
      exact Nat.succ_le_succ (ih hp')

theorem find_add_le {pat s : List α} {p : Nat} (h : find pat s = some p) :
    p + pat.length ≤ s.length := by
  have h1 := (find_spec h).1.length_le
  have h2 := find_le h
  rw [List.length_drop] at h1
  omega

theorem find_isSome {pat s : List α} {p : Nat} (hp : p ≤ s.length) (h : pat <+: s.drop p) :
    ∃ q, q ≤ p ∧ find pat s = some q := by
  induction s generalizing p with
  | nil =>
    have e : pat = [] := by rw [List.drop_nil] at h; exact List.prefix_nil.mp h
    exact ⟨0, Nat.zero_le _, by simp [find, e]⟩
  | cons c t ih =>
    by_cases h0 : pat <+: c :: t
    · exact ⟨0, Nat.zero_le _, by simp [find, h0]⟩
    · cases p with
      | zero => exact absurd h h0
      | succ p =>
        obtain ⟨q, hq, e⟩ := ih (Nat.le_of_succ_le_succ hp) h
        exact ⟨q + 1, Nat.succ_le_succ hq, by simp [find, h0, e]⟩

theorem find_eq_some {pat s : List α} {p : Nat} (hp : p ≤ s.length) (h : pat <+: s.drop p)
    (hmin : ∀ q, q < p → ¬ pat <+: s.drop q) : find pat s = some p := by
  obtain ⟨q, hq, e⟩ := find_isSome hp h
  rcases Nat.lt_or_eq_of_le hq with hlt | rfl
  · exact absurd (find_spec e).1 (hmin q hlt)
  · exact e

theorem find_some_iff {pat s : List α} {p : Nat} : find pat s = some p ↔
    (p ≤ s.length ∧ pat <+: s.drop p) ∧ ∀ q, q < p → ¬ pat <+: s.drop q := by
  constructor
  · intro h
    exact ⟨⟨find_le h, (find_spec h).1⟩, (find_spec h).2⟩
  · rintro ⟨⟨hp, h⟩, hmin⟩
    exact find_eq_some hp h hmin

theorem find_eq_none {pat s : List α} :
    find pat s = none ↔ ∀ p, p ≤ s.length → ¬ pat <+: s.drop p := by
  constructor
  · intro hn p hp h
    obtain ⟨q, -, hq⟩ := find_isSome hp h
    rw [hn] at hq
    cases hq
  · intro h
    cases e : find pat s with
    | none => rfl
    | some k => exact absurd (find_spec e).1 (h k (find_le e))

theorem prefix_drop_append {pat s : List α} {p : Nat} (t : List α) (h : pat <+: s.drop p) :
    pat <+: (s ++ t).drop p := by
  rw [List.drop_append]
  exact h.trans (List.prefix_append _ _)

theorem prefix_drop_of_append {pat s t : List α} {q : Nat} (hq : q + pat.length ≤ s.length)
    (h : pat <+: (s ++ t).drop q) : pat <+: s.drop q := by
  have hle : q ≤ s.length := by omega
  rw [List.drop_append_of_le_length hle] at h
  exact List.prefix_of_prefix_length_le h (List.prefix_append _ _)
    (by rw [List.length_drop]; omega)

theorem find_append {pat s : List α} {p : Nat} (t : List α) (h : find pat s = some p) :
    find pat (s ++ t) = some p := by
  obtain ⟨h1, h2⟩ := find_spec h
  have hle := find_add_le h
  refine find_eq_some (by rw [List.length_append]; omega) (prefix_drop_append t h1) ?_
  intro q hq hpre
  exact h2 q hq (prefix_drop_of_append (by omega) hpre)

/-- a list that starts with no element of `line` is found only behind `line` -/
theorem find_skip {c : α} {pat line : List α} (hc : c ∉ line) (s : List α) :
    find (c :: pat) (line ++ s) = (find (c :: pat) s).map (· + line.length) := by
  induction line with
  | nil => simp
  | cons d line ih =>
    have hd : ¬ (c :: pat) <+: d :: (line ++ s) := by
      intro h
      exact hc (by rw [(List.cons_prefix_cons.mp h).1]; exact List.mem_cons_self)
    have hc' : c ∉ line := fun h => hc (List.mem_cons_of_mem _ h)
    rw [List.cons_append]
    simp only [find, hd, if_false]
    rw [ih hc', Option.map_map]
    congr 1

theorem find_self (pat s : List α) : find pat (pat ++ s) = some 0 := by
  have h : pat <+: (pat ++ s).drop 0 := List.prefix_append _ _
  exact find_eq_some (Nat.zero_le _) h (fun q hq => absurd hq (Nat.not_lt_zero q))

theorem find_line {c : α} {pat line : List α} (hc : c ∉ line) (s : List α) :
    find (c :: pat) (line ++ (c :: pat ++ s)) = some line.length := by
  rw [find_skip hc, find_self]
  simp

theorem find_none_iff {pat s : List α} : find pat s = none ↔ ¬ pat <:+: s := by
  constructor
  · rintro hn ⟨u, v, rfl⟩
    have hp : pat <+: (u ++ pat ++ v).drop u.length := by
      rw [List.append_assoc, List.drop_left]
      exact List.prefix_append _ _
    obtain ⟨q, -, hq⟩ := find_isSome (by simp only [List.length_append]; omega) hp
    rw [hn] at hq
    cases hq
  · intro h
    cases e : find pat s with
    | none => rfl
    | some k => exact absurd ((find_spec e).1.isInfix.trans (List.drop_suffix k s).isInfix) h

theorem find_single {c : α} {s : List α} {k : Nat} (h : find [c] s = some k) :
    c ∉ s.take k ∧ s = s.take k ++ c :: s.drop (k + 1) := by
  obtain ⟨⟨t, ht⟩, hmin⟩ := find_spec h
  constructor
  · intro hm
    obtain ⟨j, hj, hc⟩ := List.getElem_of_mem hm
    rw [List.length_take] at hj
    rw [List.getElem_take] at hc
    refine hmin j (by omega) ?_
    rw [List.drop_eq_getElem_cons (by omega), hc]
    exact List.prefix_append [c] _
  · have hd : s.drop (k + 1) = t := by
      rw [← List.drop_drop, ← ht]
      rfl
    rw [hd]
    exact (List.take_append_drop k s).symm.trans (congrArg (s.take k ++ ·) ht.symm)

theorem find_single_none {c : α} {s : List α} : find [c] s = none ↔ c ∉ s := by
  rw [find_none_iff, not_iff_not]
  constructor
  · rintro ⟨u, v, rfl⟩
    simp
  · intro hm
    obtain ⟨u, v, rfl⟩ := List.append_of_mem hm
    exact ⟨u, v, by simp⟩

end

/-! ## a search that stops at the first stop element -/

section
variable [DecidableEq α] (p : α → Bool)

/-- the part before the first element for which `p` is false -/
abbrev upTo (s : List α) : List α := s.takeWhile p

theorem upTo_isPrefix (s : List α) : upTo p s <+: s := List.takeWhile_prefix p

theorem upTo_append (s t : List α) : upTo p s <+: upTo p (s ++ t) := by
  unfold upTo
  rw [List.takeWhile_append]
  split
  · rename_i h
    rw [( List.takeWhile_prefix p).eq_of_length h]
    exact List.prefix_append _ _
  · exact List.prefix_refl _

theorem upTo_eq_self {s : List α} (h : ∀ a ∈ s, p a = true) : upTo p s = s :=
  List.takeWhile_eq_self_iff.mpr h

/-- `find` in the part of the list before the first stop element -/
def findUpTo (pat s : List α) : Option Nat := find pat (upTo p s)

theorem findUpTo_append {pat s : List α} {k : Nat} (t : List α) (h : findUpTo p pat s = some k) :
    findUpTo p pat (s ++ t) = some k := by
  obtain ⟨u, hu⟩ := upTo_append p s t
  unfold findUpTo
  rw [← hu]
  exact find_append u h

theorem findUpTo_add_le {pat s : List α} {k : Nat} (h : findUpTo p pat s = some k) :
    k + pat.length ≤ s.length :=
  Nat.le_trans (find_add_le h) (upTo_isPrefix p s).length_le

theorem findUpTo_isPrefix {pat s : List α} {k : Nat} (h : findUpTo p pat s = some k) :
    pat <+: s.drop k := by
  obtain ⟨t, ht⟩ := upTo_isPrefix p s
  have h1 := prefix_drop_append t (find_spec h).1
  rwa [ht] at h1

theorem findUpTo_take {pat s : List α} {k : Nat} (h : findUpTo p pat s = some k) :
    ∀ a ∈ s.take (k + pat.length), p a = true := by
  intro a ha
  obtain ⟨t, ht⟩ := upTo_isPrefix p s
  have hle := find_add_le h
  rw [← ht, List.take_append_of_le_length hle] at ha
  exact List.mem_takeWhile_imp (List.mem_of_mem_take ha)

/-- a hit that fits into the front of the list is the hit there -/
theorem findUpTo_front {pat s t : List α} {k : Nat} (h : findUpTo p pat (s ++ t) = some k)
    (hle : k + pat.length ≤ s.length) : findUpTo p pat s = some k := by
  obtain ⟨h1, h2⟩ := find_spec h
  have hstop := findUpTo_take p h
  generalize hn : k + pat.length = n at hle hstop
  rw [List.take_append_of_le_length hle] at hstop
  -- the front up to the end of the hit has no stop element
  have hup : upTo p s = s.take n ++ upTo p (s.drop n) := by
    conv_lhs => rw [← List.take_append_drop n s]
    exact List.takeWhile_append_of_pos hstop
  obtain ⟨u, hu⟩ := upTo_append p s t
  rw [← hu] at h1 h2
  have hlen : n ≤ (upTo p s).length := by
    rw [hup, List.length_append, List.length_take]
    omega
  refine find_eq_some (by omega) (prefix_drop_of_append (by omega) h1) (fun q hq hpre => ?_)
  exact h2 q hq (prefix_drop_append u hpre)

theorem findUpTo_drop {pat s : List α} {k n : Nat} (h : findUpTo p pat s = some k) (hn : n ≤ k) :
    findUpTo p pat (s.drop n) = some (k - n) := by
  obtain ⟨h1, h2⟩ := find_spec h
  have hle := find_le h
  have hstop := findUpTo_take p h
  have hup : upTo p s = s.take n ++ upTo p (s.drop n) := by
    conv_lhs => rw [← List.take_append_drop n s]
    apply List.takeWhile_append_of_pos
    intro a ha
    exact hstop a (List.take_subset_take_left s (by omega) ha)
  have hlen : (s.take n).length = n := by
    have := (upTo_isPrefix p s).length_le
    rw [List.length_take]
    omega
  have hdrop : ∀ q, (upTo p s).drop (n + q) = (upTo p (s.drop n)).drop q := by
    intro q
    rw [hup, ← List.drop_drop, List.drop_left' hlen]
  have htotal : (upTo p s).length = n + (upTo p (s.drop n)).length := by
    rw [hup, List.length_append, hlen]
  refine find_eq_some (by omega) ?_ ?_
  · rw [← hdrop, Nat.add_sub_cancel' hn]
    exact h1
  · intro q hq hpre
    refine h2 (n + q) (by omega) ?_
    rwa [hdrop]

theorem findUpTo_line {c : α} {pat line : List α} (hc : c ∉ line)
    (hl : ∀ a ∈ line ++ c :: pat, p a = true) (s : List α) :
    findUpTo p (c :: pat) (line ++ (c :: pat ++ s)) = some line.length := by
  unfold findUpTo upTo
  rw [← List.append_assoc, List.takeWhile_append_of_pos hl, List.append_assoc]
  exact find_line hc _

end

end Find
