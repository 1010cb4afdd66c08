import LearnDiary.MessageQueue.Faster

/-!
# Message queues: how long a loop sleeps (comm/messagequeue/message_queue.cc)

`RunLoop::Run` and `__ComputerWaitTime` take the delay and the elapsed ticks each in their own way: the
loop compares them before it subtracts, the helper subtracts first.

* `timed_iff`      when the two agree on a message;
* `scan_least`     the time-out of a list with nothing due;
* `sleep_iff`      when they agree on a list.
-/

namespace MessageQueue
open State

/-- the helper and the loop agree on a message -/
def Agrees (now : UInt64) (it : MessageWrapper) : Prop :=
  ∃ wait, computerWaitTime now it = some wait ∧ (due now it = true ↔ wait = 0)

/-- the scan of the loop and `__ComputerWaitTime` fit together: on what is due, on the time-out, which
is ten minutes or the least wait time, and not longer than what any message has left -/
structure SleepsRight (now : UInt64) (lst : List MessageWrapper) : Prop where
  zero : ∀ it ∈ lst, Agrees now it
  least : (∀ it ∈ lst, due now it = false) → ∃ waits, lst.mapM (computerWaitTime now) = some waits ∧
    scan now tenMinutes lst = .idle (waits.foldl min tenMinutes)
  early : ∀ n, scan now tenMinutes lst = .idle n → ∀ it ∈ lst, n.toInt ≤ remaining now it

/-- a periodic message has its status from the constructor or the loop, and the delay without the elapsed
ticks is an `int64_t` -/
structure Timed (now : UInt64) (it : MessageWrapper) : Prop where
  status : it.timing.type = .kPeriod → it.periodstatus ≠ .kImmediately
  fits : Computed now it

section
variable {now : UInt64} {it : MessageWrapper} {delay : Int64}

/-! ## one message -/

theorem delay_none (h : it.delay = none) : it.immediate = true ∨
    (it.timing.type = .kPeriod ∧ it.periodstatus = .kImmediately) := by
  unfold MessageWrapper.delay at h
  unfold MessageWrapper.immediate
  cases ht : it.timing.type with
  | kImmediately => exact Or.inl rfl
  | kAfter => rw [ht] at h; cases h
  | kPeriod =>
    cases hp : it.periodstatus with
    | kImmediately => exact Or.inr ⟨rfl, rfl⟩
    | kAfter => rw [ht, hp] at h; cases h
    | kPeriod => rw [ht, hp] at h; cases h

/-- a message with a delay has a status -/
theorem delay_status (h : it.delay = some delay) (ht : it.timing.type = .kPeriod) :
    it.periodstatus ≠ .kImmediately := by
  intro hp
  unfold MessageWrapper.delay at h
  rw [ht, hp] at h
  cases h

theorem due_delay (h : it.delay = some delay) : due now it = true ↔ it.left now delay ≤ 0 := by
  rw [← remaining_zero_iff (delay_status h)]
  unfold remaining
  rw [h]
  show max 0 (it.left now delay) = 0 ↔ _
  omega

theorem not_agrees (ht : it.timing.type = .kPeriod) (hp : it.periodstatus = .kImmediately) :
    ¬ Agrees now it := by
  have hdue : due now it = false := by
    unfold due
    rw [ht, hp]
  have hwait : computerWaitTime now it = some 0 := by
    unfold computerWaitTime
    rw [ht, hp]
    rfl
  rintro ⟨wait, hw, hiff⟩
  rw [hwait] at hw
  rw [hdue] at hiff
  exact absurd (hiff.mpr (Option.some.inj hw).symm) Bool.false_ne_true

/-- **Loop and helper** agree on a message exactly when the time it has left is in range. -/
theorem timed_iff : Timed now it ↔ Agrees now it := by
  constructor
  · intro ht
    obtain ⟨wait, hw, hrem⟩ := waitTime_some ht.fits
    refine ⟨wait, hw, ?_⟩
    rw [← remaining_zero_iff ht.status, ← hrem, ← Int64.toInt_inj]
    rfl
  · intro h
    refine ⟨fun ht hp => not_agrees ht hp h, ?_⟩
    obtain ⟨wait, hw, -⟩ := h
    exact (waitTime_iff.mp hw).1

theorem scan_delay {left : Int64} (h : it.delay = some delay) (hdue : due now it = false)
    (hleft : difference delay (gettickspan now it.record_time) = some left) (n : Int64)
    (rest : List MessageWrapper) :
    scan now n (it :: rest) = (scan now (min n left) rest).behind it := by
  unfold due at hdue
  unfold MessageWrapper.delay at h
  rw [scan]
  dsimp only
  cases ht : it.timing.type with
  | kImmediately => rw [ht] at h; cases h
  | kAfter =>
    rw [ht] at h hdue
    cases h
    exact (if_neg (of_decide_eq_false hdue)).trans (by rw [hleft])
  | kPeriod =>
    cases hp : it.periodstatus with
    | kImmediately => rw [ht, hp] at h; cases h
    | kAfter =>
      rw [ht, hp] at h hdue
      cases h
      exact (if_neg (of_decide_eq_false hdue)).trans (by rw [hleft])
    | kPeriod =>
      rw [ht, hp] at h hdue
      cases h
      exact (if_neg (of_decide_eq_false hdue)).trans (by rw [hleft])

/-- what the loop takes into its time-out for a message that is not due -/
theorem wait_delay (ht : Timed now it) (hdue : due now it = false) :
    ∃ delay left, it.delay = some delay ∧
      difference delay (gettickspan now it.record_time) = some left ∧
      computerWaitTime now it = some left ∧ left.toInt = remaining now it := by
  cases hd : it.delay with
  | none =>
    rcases delay_none hd with himm | ⟨htype, hp⟩
    · rw [due_immediate himm] at hdue
      cases hdue
    · exact absurd hp (ht.status htype)
  | some delay =>
    obtain ⟨left, hleft, hval⟩ := difference_some (ht.fits delay hd)
    have hpos : ¬ it.left now delay ≤ 0 := by
      rw [← due_delay hd, hdue]
      exact Bool.false_ne_true
    have hrem : left.toInt = remaining now it := by
      rw [hval]
      unfold remaining
      rw [hd]
      show it.left now delay = max 0 (it.left now delay)
      omega
    exact ⟨delay, left, rfl, hleft, waitTime_iff.mpr ⟨ht.fits, hrem⟩, hrem⟩

end

/-! ## a list -/

section
variable {now : UInt64} {lst : List MessageWrapper}

/-- **The time-out of a list** with nothing due; the wait times are what the messages have left. -/
theorem scan_least (ht : ∀ it ∈ lst, Timed now it) (hdue : ∀ it ∈ lst, due now it = false) (n : Int64) :
    ∃ waits, lst.mapM (computerWaitTime now) = some waits ∧
      scan now n lst = .idle (waits.foldl min n) ∧
      ∀ it ∈ lst, ∃ wait ∈ waits, wait.toInt = remaining now it := by
  induction lst generalizing n with
  | nil => exact ⟨[], rfl, rfl, fun _ hit => absurd hit List.not_mem_nil⟩
  | cons it rest ih =>
    obtain ⟨delay, left, hd, hleft, hwait, hrem⟩ :=
      wait_delay (ht it List.mem_cons_self) (hdue it List.mem_cons_self)
    obtain ⟨waits, hmap, hscan, hall⟩ := ih (fun x hx => ht x (List.mem_cons_of_mem _ hx))
      (fun x hx => hdue x (List.mem_cons_of_mem _ hx)) (min n left)
    refine ⟨left :: waits, ?_, ?_, fun x hx => ?_⟩
    · rw [List.mapM_cons, hwait, hmap]
      rfl
    · rw [scan_delay hd (hdue it List.mem_cons_self) hleft, hscan]
      rfl
    · rcases List.mem_cons.mp hx with rfl | hx
      · exact ⟨left, List.mem_cons_self, hrem⟩
      · obtain ⟨wait, hmem, hval⟩ := hall x hx
        exact ⟨wait, List.mem_cons_of_mem _ hmem, hval⟩

theorem foldl_min_le (l : List Int64) (n : Int64) : l.foldl min n ≤ n ∧ ∀ x ∈ l, l.foldl min n ≤ x := by
  induction l generalizing n with
  | nil => exact ⟨Std.le_refl n, fun x hx => absurd hx List.not_mem_nil⟩
  | cons y l ih =>
    obtain ⟨h1, h2⟩ := ih (min n y)
    refine ⟨Std.le_trans h1 Std.min_le_left, fun x hx => ?_⟩
    rcases List.mem_cons.mp hx with rfl | hx
    · exact Std.le_trans h1 Std.min_le_right
    · exact h2 x hx

end

/-- **Loop and helper** fit together on a list exactly when they agree on each of its messages, that is
when no delay without its elapsed ticks leaves the range of an `int64_t`. -/
theorem sleep_iff (now : UInt64) (lst : List MessageWrapper) :
    SleepsRight now lst ↔ ∀ it ∈ lst, Timed now it := by
  constructor
  · exact fun h it hit => timed_iff.mpr (h.zero it hit)
  · intro ht
    refine ⟨fun it hit => timed_iff.mp (ht it hit), fun hdue => ?_, fun n hn it hit => ?_⟩
    · obtain ⟨waits, hmap, hscan, -⟩ := scan_least ht hdue tenMinutes
      exact ⟨waits, hmap, hscan⟩
    · obtain ⟨waits, -, hscan, hall⟩ := scan_least ht (scan_idle hn) tenMinutes
      rw [hscan] at hn
      cases hn
      obtain ⟨wait, hmem, hval⟩ := hall it hit
      rw [← hval]
      exact Int64.le_iff_toInt_le.mp ((foldl_min_le _ tenMinutes).2 _ hmem)

/-- **A message that is due** has no wait time: the least delay, and a tick. -/
theorem sleep_overdue : ∃ s content, Runs.exec step init overdue = some s ∧ s.map 7 = some content ∧
    ¬ SleepsRight s.now content.lst_message := by
  obtain ⟨s, hs⟩ := Option.isSome_iff_exists.mp
    (show (Runs.exec step init overdue).isSome = true by decide)
  have hview : (Runs.exec step init overdue).map (fun s => (s.now, (s.map 7).map (·.lst_message))) =
      some (1, some [⟨1, ⟨⟨7, 1⟩, 2⟩, ⟨1, none⟩, ever, .kAfter, 0⟩]) := by decide
  rw [hs] at hview
  obtain ⟨hnow, hmap⟩ := Prod.mk.inj (Option.some.inj hview)
  obtain ⟨content, hq, hlst⟩ := Option.map_eq_some_iff.mp hmap
  refine ⟨s, content, hs, hq, fun h => ?_⟩
  have ht := timed_iff.mpr (h.zero _ (by rw [hlst]; exact List.mem_singleton_self _))
  rw [hnow] at ht
  exact absurd (ht.fits ever.after rfl).1 (by decide)

end MessageQueue
