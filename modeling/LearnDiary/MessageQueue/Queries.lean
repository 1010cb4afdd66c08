import LearnDiary.MessageQueue.Nesting

/-!
# Message queues: the queries

`FoundMessage`, `RunningMessageID` and `RunningMessage` read the entries of the loops, which are
none as long as no `Run` of the queue has begun.

* `found_iff`   where `FoundMessage` is right;
* `back_iff`    where the queries of the running message have an entry to look at.
-/

namespace MessageQueue
open State

variable {s : State}

/-! ## FoundMessage -/

/-- the message is in the list of its queue or what one of the loops runs -/
def State.alive (i : MessagePost_t) (s : State) : Prop :=
  (∃ it ∈ s.pending i.reg.queue, it.postid = i) ∨
    ∃ v ∈ s.infos i.reg.queue, v.runing_message_id = i

theorem foundMessage_iff (s : State) (i : MessagePost_t) :
    s.foundMessage i = true ↔ s.infos i.reg.queue ≠ [] ∧ s.alive i := by
  unfold foundMessage State.alive
  cases hc : s.map i.reg.queue with
  | none =>
    have hi : s.infos i.reg.queue = [] := by
      unfold infos
      rw [hc]
      rfl
    refine ⟨(fun h => by cases h), fun h => absurd hi h.1⟩
  | some c =>
    rw [infos_some hc, pending_some hc]
    dsimp only
    by_cases hi : c.lst_runloop_info = []
    · rw [if_pos hi]
      exact ⟨(fun h => by cases h), fun h => absurd hi h.1⟩
    · rw [if_neg hi, Bool.or_eq_true, List.any_eq_true, List.any_eq_true]
      constructor
      · rintro (⟨v, hv, he⟩ | ⟨it, hit, he⟩)
        · exact ⟨hi, Or.inr ⟨v, hv, (eq_of_beq he).symm⟩⟩
        · exact ⟨hi, Or.inl ⟨it, hit, (eq_of_beq he).symm⟩⟩
      · rintro ⟨-, ⟨it, hit, he⟩ | ⟨v, hv, he⟩⟩
        · exact Or.inr ⟨it, hit, by rw [he]; exact beq_self_eq_true i⟩
        · exact Or.inl ⟨v, hv, by rw [he]; exact beq_self_eq_true i⟩

/-- **Where `FoundMessage` is right**: unless the message is pending in a queue no `Run` of which has
begun. -/
theorem found_iff (h : Reachable s) (i : MessagePost_t) :
    (s.foundMessage i = true ↔ s.alive i) ↔
      ¬ (s.frames i.reg.queue = [] ∧ ∃ it ∈ s.pending i.reg.queue, it.postid = i) := by
  have hnil := (Reachable.nesting h).infos_nil i.reg.queue
  rw [foundMessage_iff, ← hnil]
  constructor
  · rintro hiff ⟨hi, hp⟩
    exact (hiff.mpr (Or.inl hp)).1 hi
  · intro hno
    refine ⟨fun hf => hf.2, fun ha => ⟨fun hi => ?_, ha⟩⟩
    rcases ha with hp | ⟨v, hv, -⟩
    · exact hno ⟨hi, hp⟩
    · rw [hi] at hv
      cases hv

/-- a message for the queue 7, whose loop has not begun -/
def earlyPost : List Act :=
  [.call 1 (.createMessageQueueInfo 7),
    .call 1 (.postMessage ⟨7, 1⟩ ⟨1, none⟩ ⟨.kImmediately, 0, 0⟩)]

theorem found_iff_early : ∃ s, Reachable s ∧ (¬ (s.foundMessage ⟨⟨7, 1⟩, 9⟩ = true) ∧
    ¬ s.alive ⟨⟨7, 1⟩, 9⟩) := by
  obtain ⟨s, hr, hs⟩ := Runs.Run.of_test
    (f := fun s => (s.frames 7).isEmpty && (s.pending 7).all (fun it => it.postid != ⟨⟨7, 1⟩, 9⟩))
    (show (Runs.exec step init earlyPost).any _ = true by decide)
  obtain ⟨hnil, hno⟩ := Bool.and_eq_true_iff.mp hs
  have hnone : s.foundMessage ⟨⟨7, 1⟩, 9⟩ ≠ true := by
    rw [Ne, foundMessage_iff]
    exact fun h => h.1 (((Reachable.nesting hr).infos_nil 7).mpr (List.isEmpty_iff.mp hnil))
  have hiff := (found_iff hr ⟨⟨7, 1⟩, 9⟩).mpr (by
    rintro ⟨-, it, hit, he⟩
    have := List.all_eq_true.mp hno it hit
    rw [he] at this
    cases this)
  exact ⟨s, hr, hnone, fun ha => hnone (hiff.mpr ha)⟩

theorem found_misses : ¬ ∀ s, Reachable s → ∀ i, s.foundMessage i = true ↔ s.alive i := by
  intro hall
  obtain ⟨s, hr, hs⟩ := Runs.Run.of_test
    (f := fun s => (s.pending 7).any (fun it => it.postid == ⟨⟨7, 1⟩, 2⟩) &&
      !s.foundMessage ⟨⟨7, 1⟩, 2⟩)
    (show (Runs.exec step init earlyPost).any _ = true by decide)
  obtain ⟨hp, hnot⟩ := Bool.and_eq_true_iff.mp hs
  obtain ⟨it, hit, he⟩ := List.any_eq_true.mp hp
  have hfound := (hall s hr ⟨⟨7, 1⟩, 2⟩).mpr (Or.inl ⟨it, hit, eq_of_beq he⟩)
  rw [hfound] at hnot
  cases hnot

/-! ## the newest entry -/

theorem getLast_none {α β : Type*} (l : List α) (f : α → β) : l.getLast?.map f = none ↔ l = [] := by
  rw [Option.map_eq_none_iff, List.getLast?_eq_none_iff]

theorem runningMessageID_none (s : State) (q : MessageQueue_t) :
    s.runningMessageID q = none ↔ s.map q ≠ none ∧ s.infos q = [] := by
  unfold runningMessageID
  cases hc : s.map q with
  | none => exact ⟨(fun h => by cases h), fun h => absurd rfl h.1⟩
  | some c =>
    rw [infos_some hc]
    dsimp only
    rw [getLast_none]
    exact ⟨fun h => ⟨Option.some_ne_none c, h⟩, fun h => h.2⟩

theorem runningMessage_none (s : State) (t : Thread) :
    s.runningMessage t = none ↔ s.map t ≠ none ∧ s.infos t = [] := by
  unfold runningMessage
  cases hc : s.map t with
  | none => exact ⟨(fun h => by cases h), fun h => absurd rfl h.1⟩
  | some c =>
    rw [infos_some hc]
    dsimp only
    rw [getLast_none]
    exact ⟨fun h => ⟨Option.some_ne_none c, h⟩, fun h => h.2⟩

theorem waitForRunningLockEnd_some (s : State) (t : Thread) (x : Target) :
    s.waitForRunningLockEnd t x ≠ none := by
  unfold waitForRunningLockEnd
  split
  · exact Option.some_ne_none _
  · split
    · exact Option.some_ne_none _
    · split
      · exact Option.some_ne_none _
      · rename_i c _ hi
        cases x with
        | post m => exact Option.some_ne_none _
        | handler h => exact Option.some_ne_none _
        | queue q =>
          cases hl : c.lst_runloop_info with
          | nil => exact absurd hl hi
          | cons v l => exact Option.some_ne_none _

/-- **Which queries have an entry to look at**: `WaitForRunningLockEnd` and the loop itself always,
the queries of the running message unless the queue is there and no `Run` of it has begun. -/
theorem back_iff (h : Reachable s) :
    (∀ q, s.runningMessageID q ≠ none ↔ ¬ (s.map q ≠ none ∧ s.frames q = [])) ∧
    (∀ t, s.runningMessage t ≠ none ↔ ¬ (s.map t ≠ none ∧ s.frames t = [])) ∧
    (∀ t x, s.waitForRunningLockEnd t x ≠ none) ∧
    ∀ t, s.frames t ≠ [] → (s.infos t).getLast? ≠ none := by
  have hn := Reachable.nesting h
  refine ⟨fun q => ?_, fun t => ?_, waitForRunningLockEnd_some s, fun t hf => ?_⟩
  · rw [Ne, runningMessageID_none, hn.infos_nil]
  · rw [Ne, runningMessage_none, hn.infos_nil]
  · rw [Ne, List.getLast?_eq_none_iff, hn.infos_nil]
    exact hf

theorem back_iff_nested : ∃ s, Reachable s ∧ s.frames 7 ≠ [] ∧ s.runningMessageID 7 ≠ none := by
  obtain ⟨s, hr, hs⟩ := Runs.Run.of_test (f := fun s => (s.frames 7).length == 2)
    (show (Runs.exec step init nestedRun).any _ = true by decide)
  have hf : s.frames 7 ≠ [] := by
    intro hnil
    rw [hnil] at hs
    cases hs
  exact ⟨s, hr, hf, ((back_iff hr).1 7).mpr (fun h => hf h.2)⟩

theorem back_of_empty : ¬ ∀ s, Reachable s →
    (∀ q, s.runningMessageID q ≠ none) ∧ ∀ t, s.runningMessage t ≠ none := by
  intro hall
  obtain ⟨s, hr, hs⟩ := Runs.Run.of_test (f := fun s => (s.runningMessageID 7).isNone)
    (show (Runs.exec step init earlyPost).any _ = true by decide)
  exact (hall s hr).1 7 (Option.isNone_iff_eq_none.mp hs)

end MessageQueue
