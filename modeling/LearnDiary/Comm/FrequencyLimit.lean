import Mathlib.Data.List.Basic
import LearnDiary.Lib.Runs

/-!
# `CommFrequencyLimit` (comm/comm_frequency_limit.cc)

A list of the times of the calls that passed; a call is refused when the list holds more than
`count_` of them and the oldest one is not old enough.

* `accepted_eq`        the calls pass as long as the intervals hold at most `count_` of those that
                       passed;
* `limit_iff`          when at most `count_` calls pass in every interval;
* `accepted_le_succ`   what the code guarantees, one call more;
* `clocked_iff`        when the recorded times are in order and the oldest one is behind the clock.
-/

structure CommFrequencyLimit where
  count_ : Nat
  time_span_ : UInt64
  touch_times_ : List UInt64 := []

namespace CommFrequencyLimit

/-- `__DelOlderTouchTime` -/
def delOlderTouchTime (_time time_span_ : UInt64) : List UInt64 → List UInt64
  | [] => []
  | iter :: l =>
    if time_span_ < _time - iter then delOlderTouchTime _time time_span_ l else iter :: l

/-- the amendment for a clock that was set back -/
def amend (now : UInt64) (touch_times_ : List UInt64) : List UInt64 :=
  match touch_times_ with
  | [] => []
  | front :: l => if now < front then (front :: l).map (fun _ => now - 1) else front :: l

/-- `Check` at the clock `now` -/
def check (f : CommFrequencyLimit) (now : UInt64) : Bool × CommFrequencyLimit :=
  let f := { f with touch_times_ := amend now f.touch_times_ }
  if f.touch_times_.length ≤ f.count_ then
    (true, { f with touch_times_ := f.touch_times_ ++ [now] })
  else
    match f.touch_times_ with
    | [] => (true, f)
    | front :: _ =>
      if now - front ≤ f.time_span_ then (false, f)
      else
        (true, { f with
          touch_times_ := delOlderTouchTime now f.time_span_ f.touch_times_ ++ [now] })

def accepted (f : CommFrequencyLimit) : List UInt64 → List UInt64
  | [] => []
  | now :: calls =>
    let r := f.check now
    if r.1 then now :: accepted r.2 calls else accepted r.2 calls

/-- the time lies in the interval of length `time_span_` that starts at `a` -/
def within (a : Nat) (time_span_ t : UInt64) : Bool :=
  a ≤ t.toNat && t.toNat ≤ a + time_span_.toNat

/-- every interval of length `time_span_` holds at most `n` of the times -/
def AtMost (n : Nat) (time_span_ : UInt64) (times : List UInt64) : Prop :=
  ∀ a, times.countP (within a time_span_) ≤ n

section
variable {f : CommFrequencyLimit} {n : Nat} {now s : UInt64} {l l₁ l₂ calls : List UInt64}

theorem AtMost.sublist (h : AtMost n s l₂) (hl : l₁.Sublist l₂) : AtMost n s l₁ :=
  fun a => Nat.le_trans hl.countP_le (h a)

theorem within_iff {a : Nat} {t : UInt64} :
    within a s t = true ↔ a ≤ t.toNat ∧ t.toNat ≤ a + s.toNat := by
  unfold within
  rw [Bool.and_eq_true, decide_eq_true_iff, decide_eq_true_iff]

theorem countP_within {t : UInt64} (hl : (t :: l).Pairwise (· ≤ ·)) (ht : ∀ x ∈ l, x ≤ now)
    (hn : now.toNat ≤ t.toNat + s.toNat) :
    (t :: l).countP (within t.toNat s) = (t :: l).length := by
  rw [List.countP_eq_length]
  intro x hx
  rw [within_iff]
  rcases List.mem_cons.mp hx with rfl | hx
  · omega
  · have h1 := UInt64.le_iff_toNat_le.mp ((List.pairwise_cons.mp hl).1 x hx)
    have h2 := UInt64.le_iff_toNat_le.mp (ht x hx)
    omega

theorem toNat_sub {t : UInt64} (h : t ≤ now) : (now - t).toNat = now.toNat - t.toNat :=
  UInt64.toNat_sub_of_le _ _ h

/-- what is deleted is a first part, and too old -/
theorem delOlder_split (now s : UInt64) (l : List UInt64) :
    ∃ mid, mid ++ delOlderTouchTime now s l = l ∧ ∀ x ∈ mid, s < now - x := by
  induction l with
  | nil => exact ⟨[], rfl, fun x hx => nomatch hx⟩
  | cons iter l ih =>
    rw [delOlderTouchTime]
    split
    next hold =>
      obtain ⟨mid, hmid, hall⟩ := ih
      refine ⟨iter :: mid, congrArg (iter :: ·) hmid, fun x hx => ?_⟩
      rcases List.mem_cons.mp hx with rfl | hx
      · exact hold
      · exact hall x hx
    next => exact ⟨[], rfl, fun x hx => nomatch hx⟩

theorem amend_eq (h : ∀ x ∈ l, x ≤ now) : amend now l = l := by
  cases l with
  | nil => rfl
  | cons front l =>
    have hle := UInt64.le_iff_toNat_le.mp (h front List.mem_cons_self)
    rw [amend, if_neg]
    intro hlt
    have := UInt64.lt_iff_toNat_lt.mp hlt
    omega

theorem delOlder_front {front : UInt64} (h : s < now - front) :
    delOlderTouchTime now s (front :: l) = delOlderTouchTime now s l := by
  rw [delOlderTouchTime, if_pos h]

theorem check_cases (h : ∀ x ∈ f.touch_times_, x ≤ now) :
    (f.touch_times_.length ≤ f.count_ ∧
      f.check now = (true, { f with touch_times_ := f.touch_times_ ++ [now] })) ∨
    ∃ front l, f.touch_times_ = front :: l ∧ f.count_ ≤ l.length ∧
      ((now - front ≤ f.time_span_ ∧ f.check now = (false, f)) ∨
       (f.time_span_ < now - front ∧ f.check now = (true, { f with
          touch_times_ := delOlderTouchTime now f.time_span_ l ++ [now] }))) := by
  unfold check
  rw [amend_eq h]
  dsimp only
  split
  next hlen => exact Or.inl ⟨hlen, rfl⟩
  next hlen =>
    refine Or.inr ?_
    split
    next hnil =>
      rw [hnil] at hlen
      exact absurd (Nat.zero_le _) hlen
    next front l hcons =>
      refine ⟨front, l, hcons, ?_, ?_⟩
      · rw [hcons, List.length_cons] at hlen
        omega
      · split
        next hle => exact Or.inl ⟨hle, rfl⟩
        next hlt =>
          have hlt : f.time_span_ < now - front := UInt64.not_le.mp hlt
          refine Or.inr ⟨hlt, ?_⟩
          rw [hcons, delOlder_front hlt]

/-! ## the calls pass while there is room -/

theorem check_passes (hsuf : f.touch_times_ <:+ l) (hl : (l ++ [now]).Pairwise (· ≤ ·))
    (hroom : AtMost f.count_ f.time_span_ l) :
    ∃ f', f.check now = (true, f') ∧ f'.count_ = f.count_ ∧ f'.time_span_ = f.time_span_ ∧
      f'.touch_times_ <:+ l ++ [now] := by
  have hle : ∀ x ∈ l, x ≤ now := fun x hx =>
    (List.pairwise_append.mp hl).2.2 x hx now (List.mem_singleton.mpr rfl)
  obtain ⟨pre, rfl⟩ := hsuf
  have hle' : ∀ x ∈ f.touch_times_, x ≤ now := fun x hx => hle x (List.mem_append_right _ hx)
  rcases check_cases hle' with ⟨-, he⟩ | ⟨front, rest, hcons, hlen, ⟨hspan, -⟩ | ⟨-, he⟩⟩
  · exact ⟨_, he, rfl, rfl, ⟨pre, (List.append_assoc _ _ _).symm⟩⟩
  · -- the front and the `count_` behind it would all lie in one interval
    have hsort : (front :: rest).Pairwise (· ≤ ·) := by
      have := (List.pairwise_append.mp (List.pairwise_append.mp hl).1).2.1
      rwa [hcons] at this
    have hfront : front ≤ now := hle' front (hcons ▸ List.mem_cons_self)
    have hnow : now.toNat ≤ front.toNat + f.time_span_.toNat := by
      have h1 := UInt64.le_iff_toNat_le.mp hspan
      rw [toNat_sub hfront] at h1
      omega
    have hrest : ∀ x ∈ rest, x ≤ now := fun x hx =>
      hle' x (hcons ▸ List.mem_cons_of_mem _ hx)
    have hcount := countP_within hsort hrest hnow
    have hsub : (front :: rest).Sublist (pre ++ f.touch_times_) := by
      rw [hcons]
      exact List.sublist_append_right _ _
    have hmax := (hroom.sublist hsub) front.toNat
    rw [hcount, List.length_cons] at hmax
    omega
  · refine ⟨_, he, rfl, rfl, ?_⟩
    obtain ⟨mid, hmid, -⟩ := delOlder_split now f.time_span_ rest
    refine ⟨pre ++ front :: mid, ?_⟩
    show (pre ++ front :: mid) ++ (delOlderTouchTime now f.time_span_ rest ++ [now]) = _
    rw [hcons, ← List.append_assoc, List.append_assoc pre, List.cons_append, hmid]

/-- **The calls pass** as long as the intervals hold at most `count_` of those that passed. -/
theorem accepted_eq (hsuf : f.touch_times_ <:+ l) (hl : (l ++ calls).Pairwise (· ≤ ·))
    (hroom : AtMost f.count_ f.time_span_ (l ++ f.accepted calls)) : f.accepted calls = calls := by
  induction calls generalizing f l with
  | nil => rfl
  | cons now calls ih =>
    have hsort : (l ++ [now]).Pairwise (· ≤ ·) :=
      hl.sublist (List.Sublist.append (List.Sublist.refl l)
        (List.cons_sublist_cons.mpr (List.nil_sublist calls)))
    obtain ⟨f', he, hc, hs, hsuf'⟩ :=
      check_passes hsuf hsort (hroom.sublist (List.sublist_append_left _ _))
    have hpass : f.accepted (now :: calls) = now :: f'.accepted calls := by
      rw [accepted, he]
      rfl
    rw [hpass] at hroom ⊢
    rw [List.append_cons] at hl hroom
    rw [← hc, ← hs] at hroom
    rw [ih hsuf' hl hroom]

/-- **When the limit holds**: in no interval are there more than `count_` calls at all. -/
theorem limit_iff (count_ : Nat) (time_span_ : UInt64) (calls : List UInt64)
    (hclock : calls.Pairwise (· ≤ ·)) :
    AtMost count_ time_span_ (accepted ⟨count_, time_span_, []⟩ calls) ↔
      AtMost count_ time_span_ calls := by
  have hsub : ∀ f : CommFrequencyLimit, (f.accepted calls).Sublist calls := by
    intro f
    clear hclock
    induction calls generalizing f with
    | nil => exact List.Sublist.refl _
    | cons now calls ih =>
      rw [accepted]
      split
      · exact List.cons_sublist_cons.mpr (ih _)
      · exact (ih _).trans (List.sublist_cons_self _ _)
  constructor
  · intro h
    have heq : accepted ⟨count_, time_span_, []⟩ calls = calls :=
      accepted_eq (l := []) (List.suffix_refl _) hclock h
    rwa [heq] at h
  · exact fun h => h.sublist (hsub _)

theorem limit_iff_apart : AtMost 1 10 (accepted ⟨1, 10, []⟩ [5, 16]) := by
  refine (limit_iff 1 10 [5, 16] (by decide)).mpr (fun a => ?_)
  by_cases h : within a 10 5 = true
  · have hno : ¬ within a 10 16 = true := by
      rw [within_iff] at h ⊢
      have h5 : (5 : UInt64).toNat = 5 := rfl
      have h10 : (10 : UInt64).toNat = 10 := rfl
      have h16 : (16 : UInt64).toNat = 16 := rfl
      omega
    refine Nat.le_of_eq ?_
    rw [List.countP_cons_of_pos h, List.countP_singleton, if_neg hno]
  · rw [List.countP_cons_of_neg h]
    exact List.countP_le_length

/-- with a limit of one call in ten, two in a row pass -/
theorem limit_exceeded : ¬ AtMost 1 10 (accepted ⟨1, 10, []⟩ [5, 6]) := by
  intro h
  have htwo := h 5
  revert htwo
  decide

/-! ## one call more -/

/-- the times that have left the list are older than the interval up to the last one that passed -/
structure Kept (f : CommFrequencyLimit) (l : List UInt64) : Prop where
  size : f.touch_times_.length ≤ f.count_ + 1
  old : ∃ pre, l = pre ++ f.touch_times_ ∧
    ∀ x ∈ pre, ∀ y ∈ l, l.getLast? = some y → x.toNat + f.time_span_.toNat < y.toNat
  most : AtMost (f.count_ + 1) f.time_span_ l

theorem Kept.passed (pre : List UInt64) (hmost : AtMost (f.count_ + 1) f.time_span_ l)
    (hsize : f.touch_times_.length ≤ f.count_ + 1) (hsplit : l ++ [now] = pre ++ f.touch_times_)
    (hold : ∀ x ∈ pre, x.toNat + f.time_span_.toNat < now.toNat) : Kept f (l ++ [now]) := by
  refine ⟨hsize, ⟨pre, hsplit, fun x hx y _ hlast => ?_⟩, fun a => ?_⟩
  · rw [List.getLast?_concat] at hlast
    cases hlast
    exact hold x hx
  · by_cases hnow : within a f.time_span_ now = true
    · have hpre : pre.countP (within a f.time_span_) = 0 := by
        rw [List.countP_eq_zero]
        intro x hx hin
        have h1 := hold x hx
        have h2 := within_iff.mp hin
        have h3 := within_iff.mp hnow
        omega
      have hrest := List.countP_le_length (p := within a f.time_span_) (l := f.touch_times_)
      rw [hsplit, List.countP_append, hpre]
      omega
    · rw [List.countP_append, List.countP_singleton, if_neg hnow]
      exact hmost a

theorem Kept.check (h : Kept f l) (hl : (l ++ [now]).Pairwise (· ≤ ·)) :
    (f.check now).2.count_ = f.count_ ∧ (f.check now).2.time_span_ = f.time_span_ ∧
      Kept (f.check now).2 (if (f.check now).1 then l ++ [now] else l) := by
  have hle : ∀ x ∈ l, x ≤ now := fun x hx =>
    (List.pairwise_append.mp hl).2.2 x hx now (List.mem_singleton.mpr rfl)
  obtain ⟨hsize, ⟨pre, hsplit, hold⟩, hmost⟩ := h
  have hle' : ∀ x ∈ f.touch_times_, x ≤ now := fun x hx =>
    hle x (hsplit ▸ List.mem_append_right _ hx)
  -- what has left the list before is older still at `now`
  have hpre : ∀ x ∈ pre, x.toNat + f.time_span_.toNat < now.toNat := by
    intro x hx
    have hne : l ≠ [] := by
      rw [hsplit]
      exact List.append_ne_nil_of_left_ne_nil (List.ne_nil_of_mem hx) _
    have h1 := hold x hx _ (List.getLast_mem hne) (List.getLast?_eq_some_getLast hne)
    have h2 := UInt64.le_iff_toNat_le.mp (hle _ (List.getLast_mem hne))
    omega
  rcases check_cases hle' with ⟨hlen, he⟩ | ⟨front, rest, hcons, -, ⟨-, he⟩ | ⟨hspan, he⟩⟩
  · rw [he]
    refine ⟨rfl, rfl, Kept.passed pre hmost ?_ ?_ hpre⟩
    · show (f.touch_times_ ++ [now]).length ≤ _
      rw [List.length_append, List.length_singleton]
      exact Nat.succ_le_succ hlen
    · rw [hsplit, List.append_assoc]
  · rw [he]
    exact ⟨rfl, rfl, hsize, ⟨pre, hsplit, hold⟩, hmost⟩
  · rw [he]
    obtain ⟨mid, hmid, hall⟩ := delOlder_split now f.time_span_ rest
    refine ⟨rfl, rfl, Kept.passed (pre ++ front :: mid) hmost ?_ ?_ ?_⟩
    · have hsub : (delOlderTouchTime now f.time_span_ rest).length ≤ rest.length := by
        have := congrArg List.length hmid
        rw [List.length_append] at this
        omega
      show (delOlderTouchTime now f.time_span_ rest ++ [now]).length ≤ f.count_ + 1
      rw [hcons, List.length_cons] at hsize
      rw [List.length_append, List.length_singleton]
      omega
    · show l ++ [now] = (pre ++ front :: mid) ++ (delOlderTouchTime now f.time_span_ rest ++ [now])
      have hlist : pre ++ front :: mid ++ delOlderTouchTime now f.time_span_ rest = l := by
        rw [List.append_assoc, List.cons_append, hmid, hsplit, hcons]
      rw [← List.append_assoc, hlist]
    · -- the front and what is deleted behind it
      have hgone : ∀ x ∈ f.touch_times_, f.time_span_ < now - x →
          x.toNat + f.time_span_.toNat < now.toNat := by
        intro x hx hlt
        have h1 := UInt64.lt_iff_toNat_lt.mp hlt
        rw [toNat_sub (hle' x hx)] at h1
        omega
      intro x hx
      rcases List.mem_append.mp hx with hx | hx
      · exact hpre x hx
      · rcases List.mem_cons.mp hx with rfl | hx
        · exact hgone x (hcons ▸ List.mem_cons_self) hspan
        · have hin : x ∈ rest := hmid ▸ List.mem_append_left _ hx
          exact hgone x (hcons ▸ List.mem_cons_of_mem _ hin) (hall x hx)

/-- **What the code guarantees**: in no interval do more than `count_ + 1` calls pass. -/
theorem accepted_le_succ (count_ : Nat) (time_span_ : UInt64) (calls : List UInt64)
    (hclock : calls.Pairwise (· ≤ ·)) :
    AtMost (count_ + 1) time_span_ (accepted ⟨count_, time_span_, []⟩ calls) := by
  have hrun : ∀ (f : CommFrequencyLimit) (l : List UInt64), Kept f l →
      (l ++ calls).Pairwise (· ≤ ·) → AtMost (f.count_ + 1) f.time_span_ (l ++ f.accepted calls) := by
    clear hclock
    induction calls with
    | nil =>
      intro f l h _
      rw [accepted, List.append_nil]
      exact h.most
    | cons now calls ih =>
      intro f l h hl
      have hsort : (l ++ [now]).Pairwise (· ≤ ·) :=
        hl.sublist (List.Sublist.append (List.Sublist.refl l)
          (List.cons_sublist_cons.mpr (List.nil_sublist calls)))
      obtain ⟨hc, hs, hk⟩ := h.check hsort
      rw [accepted]
      split
      next hpass =>
        rw [if_pos hpass] at hk
        rw [List.append_cons] at hl ⊢
        rw [← hc, ← hs]
        exact ih _ _ hk hl
      next hpass =>
        rw [if_neg hpass] at hk
        rw [← hc, ← hs]
        exact ih _ _ hk (hl.sublist (List.Sublist.append (List.Sublist.refl l)
          (List.sublist_cons_self now calls)))
  have hstart : Kept ⟨count_, time_span_, []⟩ [] := by
    refine ⟨Nat.zero_le _, ⟨[], rfl, ?_⟩, fun _ => Nat.zero_le _⟩
    intro x hx
    cases hx
  exact hrun _ [] hstart hclock

end

/-! ## the recorded times and the clock -/

/-- `Check` as a step; its result is left out -/
def step (f : CommFrequencyLimit) (now : UInt64) : Option CommFrequencyLimit := some (f.check now).2

/-- times in order, none ahead of the clock -/
def InOrder (now : UInt64) (l : List UInt64) : Prop := l.Pairwise (· ≤ ·) ∧ ∀ t ∈ l, t ≤ now

/-- what is promised of a `Check`: the recorded times are in order when they are looked at and when
they are left, and behind the test of the size the oldest one is before the clock -/
structure Clocked (f : CommFrequencyLimit) (now : UInt64) : Prop where
  found : InOrder now (amend now f.touch_times_)
  left : InOrder now (f.check now).2.touch_times_
  older : f.count_ < (amend now f.touch_times_).length →
    ∀ front ∈ (amend now f.touch_times_).head?, front < now

/-- the reading is before all recorded times or behind none of them, and then at most `count_` of them
are equal to it -/
def Follows (f : CommFrequencyLimit) (now : UInt64) : Prop :=
  (∀ t ∈ f.touch_times_, now < t) ∨
    (∀ t ∈ f.touch_times_, t ≤ now) ∧ f.touch_times_.count now ≤ f.count_

structure Recorded (f : CommFrequencyLimit) : Prop where
  order : f.touch_times_.Pairwise (· ≤ ·)
  size : f.touch_times_.length ≤ f.count_ + 1

section
variable {f : CommFrequencyLimit} {now : UInt64} {l : List UInt64}

theorem InOrder.concat (h : InOrder now l) : InOrder now (l ++ [now]) := by
  refine ⟨List.pairwise_append.mpr ⟨h.1, List.pairwise_singleton _ _, ?_⟩, ?_⟩
  · intro t ht x hx
    rw [List.mem_singleton.mp hx]
    exact h.2 t ht
  · intro t ht
    rcases List.mem_append.mp ht with ht | ht
    · exact h.2 t ht
    · exact UInt64.le_of_eq (List.mem_singleton.mp ht)

theorem InOrder.suffix {pre : List UInt64} (h : InOrder now (pre ++ l)) : InOrder now l :=
  ⟨(List.pairwise_append.mp h.1).2.1, fun t ht => h.2 t (List.mem_append_right _ ht)⟩

theorem amend_length (now : UInt64) (l : List UInt64) : (amend now l).length = l.length := by
  cases l with
  | nil => rfl
  | cons front l =>
    rw [amend]
    split
    · exact List.length_map _
    · rfl

/-- what `Check` leaves is a last part of the amended times, with the reading behind it where it
passes -/
theorem check_left (f : CommFrequencyLimit) (now : UInt64) :
    (f.check now).2.count_ = f.count_ ∧ ∃ pre rest, pre ++ rest = amend now f.touch_times_ ∧
      ((f.check now).2.touch_times_ = rest ∧ f.count_ < rest.length ∧ pre = [] ∨
        (f.check now).2.touch_times_ = rest ++ [now] ∧
          (pre = [] → rest.length ≤ f.count_)) := by
  unfold check
  dsimp only
  split
  next hlen => exact ⟨rfl, [], _, rfl, Or.inr ⟨rfl, fun _ => hlen⟩⟩
  next hlen =>
    split
    next hnil =>
      rw [hnil] at hlen
      exact absurd (Nat.zero_le _) hlen
    next front l hcons =>
      split
      next hle => exact ⟨rfl, [], _, rfl, Or.inl ⟨rfl, Nat.not_le.mp hlen, rfl⟩⟩
      next hlt =>
        obtain ⟨mid, hmid, -⟩ := delOlder_split now f.time_span_ l
        refine ⟨rfl, front :: mid, delOlderTouchTime now f.time_span_ l, ?_, Or.inr ⟨?_, ?_⟩⟩
        · rw [hcons, List.cons_append, hmid]
        · show delOlderTouchTime now f.time_span_ (amend now f.touch_times_) ++ [now] = _
          rw [hcons, delOlder_front (UInt64.not_le.mp hlt)]
        · intro hpre
          cases hpre

theorem check_inOrder (h : InOrder now (amend now f.touch_times_)) :
    InOrder now (f.check now).2.touch_times_ := by
  obtain ⟨-, pre, rest, hsplit, ⟨hl, -, -⟩ | ⟨hl, -⟩⟩ := check_left f now
  · rw [hl]
    rw [← hsplit] at h
    exact h.suffix
  · rw [hl]
    rw [← hsplit] at h
    exact h.suffix.concat

theorem Recorded.check (hf : Recorded f) (h : Clocked f now) : Recorded (f.check now).2 := by
  refine ⟨h.left.1, ?_⟩
  have hsize := hf.size
  rw [← amend_length now] at hsize
  obtain ⟨hc, pre, rest, hsplit, ⟨hl, -, rfl⟩ | ⟨hl, hpre⟩⟩ := check_left f now
  · rw [hc, hl]
    rw [← hsplit] at hsize
    exact hsize
  · rw [hc, hl, List.length_append, List.length_singleton]
    rw [← hsplit, List.length_append] at hsize
    cases pre with
    | nil => exact Nat.succ_le_succ (hpre rfl)
    | cons x pre =>
      rw [List.length_cons] at hsize
      omega

theorem amend_before (hone : 1 ≤ now) (h : ∀ t ∈ l, now < t) :
    InOrder now (amend now l) ∧ ∀ front ∈ (amend now l).head?, front < now := by
  have hlt : now - 1 < now := by
    rw [UInt64.lt_iff_toNat_lt, UInt64.toNat_sub_of_le _ _ hone]
    have := UInt64.le_iff_toNat_le.mp hone
    have h1 : (1 : UInt64).toNat = 1 := rfl
    omega
  cases l with
  | nil => exact ⟨⟨List.Pairwise.nil, fun t ht => nomatch ht⟩, fun front hf => nomatch hf⟩
  | cons front l =>
    rw [amend, if_pos (h front List.mem_cons_self)]
    refine ⟨⟨?_, ?_⟩, ?_⟩
    · rw [List.pairwise_map]
      exact List.pairwise_of_forall fun _ _ => UInt64.le_refl _
    · intro t ht
      obtain ⟨x, -, rfl⟩ := List.mem_map.mp ht
      exact UInt64.le_of_lt hlt
    · intro t ht
      cases ht
      exact hlt

/-- **The step**: the times stay in order under a reading that follows them, and under no other. -/
theorem clocked_iff_follows (hf : Recorded f) (hone : 1 ≤ now) : Clocked f now ↔ Follows f now := by
  constructor
  · intro h
    by_cases hall : ∀ t ∈ f.touch_times_, now < t
    · exact Or.inl hall
    · -- the first time is not ahead of the clock, so nothing is amended
      obtain ⟨x, hx⟩ := not_forall.mp hall
      obtain ⟨hmem, hle⟩ := Classical.not_imp.mp hx
      have hsame : amend now f.touch_times_ = f.touch_times_ := by
        cases hl : f.touch_times_ with
        | nil => rfl
        | cons front l =>
          have horder := hf.order
          rw [hl] at hmem horder
          rw [amend, if_neg]
          intro hlt
          rcases List.mem_cons.mp hmem with rfl | hin
          · exact hle hlt
          · exact hle (UInt64.lt_of_lt_of_le hlt ((List.pairwise_cons.mp horder).1 x hin))
      have hfound := h.found
      have holder := h.older
      rw [hsame] at hfound holder
      refine Or.inr ⟨hfound.2, Nat.not_lt.mp fun hcount => ?_⟩
      have hlen := List.count_le_length (a := now) (l := f.touch_times_)
      have hsize := hf.size
      -- more than `count_` equal ones are all of them, the first one too
      have hnow : ∀ t ∈ f.touch_times_, now = t :=
        List.count_eq_length.mp (by omega)
      cases hl : f.touch_times_ with
      | nil =>
        rw [hl] at hcount
        exact absurd hcount (Nat.not_lt_zero _)
      | cons front l =>
        have hlt := holder (by omega) front (by rw [hl]; rfl)
        rw [hnow front (by rw [hl]; exact List.mem_cons_self)] at hlt
        exact UInt64.lt_irrefl _ hlt
  · rintro (hall | ⟨hle, hcount⟩)
    · obtain ⟨hfound, holder⟩ := amend_before hone hall
      exact ⟨hfound, check_inOrder hfound, fun _ => holder⟩
    · have hsame := amend_eq hle
      have hfound : InOrder now (amend now f.touch_times_) := by
        rw [hsame]
        exact ⟨hf.order, hle⟩
      refine ⟨hfound, check_inOrder hfound, fun hlen front hfront => ?_⟩
      rw [hsame] at hlen hfront
      obtain ⟨l, hl⟩ := List.head?_eq_some_iff.mp hfront
      have horder := hf.order
      rw [hl] at horder hle hcount hlen
      have hfl := hle front List.mem_cons_self
      refine UInt64.lt_of_le_of_ne hfl fun heq => ?_
      -- a first one that is equal to the reading has only equal ones behind it
      have hall : ∀ t ∈ front :: l, now = t := by
        intro t ht
        refine UInt64.le_antisymm ?_ (hle t ht)
        rw [← heq]
        rcases List.mem_cons.mp ht with rfl | ht
        · exact UInt64.le_refl _
        · exact (List.pairwise_cons.mp horder).1 t ht
      rw [List.count_eq_length.mpr hall] at hcount
      omega

end

/-- **When the times are in order**: for every sequence of readings, each `Check` finds and leaves them
so, with the oldest one before the clock behind the test of the size, exactly when each reading follows
the times that are recorded. -/
theorem clocked_iff (count_ : Nat) (time_span_ : UInt64) (readings : List UInt64)
    (hone : ∀ now ∈ readings, 1 ≤ now) :
    (∀ l₁ now l₂ f, readings = l₁ ++ now :: l₂ →
      Runs.exec step ⟨count_, time_span_, []⟩ l₁ = some f → Clocked f now) ↔
    ∀ l₁ now l₂ f, readings = l₁ ++ now :: l₂ →
      Runs.exec step ⟨count_, time_span_, []⟩ l₁ = some f → Follows f now := by
  refine Runs.exec_each_iff (I := Recorded) (A := fun now => 1 ≤ now)
    (fun f now hf hn => clocked_iff_follows hf hn) ?_ ⟨List.Pairwise.nil, Nat.zero_le _⟩ hone
  intro f now f' hf _ h hs
  cases hs
  exact hf.check h

theorem clocked_iff_back : ∃ f, Runs.exec step ⟨1, 10, []⟩ [5, 7] = some f ∧ Clocked f 3 := by
  have hone : ∀ now ∈ ([5, 7, 3] : List UInt64), 1 ≤ now := by simp
  have h7 : Follows ⟨1, 10, [5]⟩ 7 := by
    refine Or.inr ⟨fun t ht => ?_, by decide⟩
    rw [List.mem_singleton.mp ht]
    decide
  have h3 : Follows ⟨1, 10, [5, 7]⟩ 3 := by
    refine Or.inl (List.forall_mem_cons.mpr ⟨by decide, List.forall_mem_singleton.mpr ?_⟩)
    decide
  refine ⟨⟨1, 10, [5, 7]⟩, rfl, (clocked_iff 1 10 [5, 7, 3] hone).mpr ?_ [5, 7] 3 [] _ rfl rfl⟩
  refine Runs.exec_each_cons.mpr ⟨Or.inl (fun t ht => nomatch ht), fun f hf => ?_⟩
  cases hf
  refine Runs.exec_each_cons.mpr ⟨h7, fun f hf => ?_⟩
  cases hf
  refine Runs.exec_each_cons.mpr ⟨h3, fun f hf l₁ now l₂ _ hl => ?_⟩
  exact absurd hl.symm (List.append_ne_nil_of_right_ne_nil l₁ (List.cons_ne_nil now l₂))

/-- **Three calls in one millisecond**, with a limit of one, find the oldest time equal to the clock; and
a clock set back between two recorded times is behind the second one. -/
theorem not_clocked : (∃ f, Runs.exec step ⟨1, 10, []⟩ [5, 5] = some f ∧ ¬ Clocked f 5) ∧
    ∃ f, Runs.exec step ⟨1, 10, []⟩ [5, 10] = some f ∧ ¬ Clocked f 7 := by
  refine ⟨⟨_, rfl, fun h => ?_⟩, ⟨_, rfl, fun h => ?_⟩⟩
  · have hlt := h.older (by decide) 5 rfl
    revert hlt
    decide
  · have hle := h.found.2 10 (by decide)
    revert hle
    decide

end CommFrequencyLimit
