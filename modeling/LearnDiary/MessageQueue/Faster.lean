import LearnDiary.MessageQueue.Singleton

/-!
# Message queues: `FasterMessage` (comm/messagequeue/message_queue.cc)

`remaining` is the time a loop still leaves a message waiting, as a number without a size;
`__ComputerWaitTime` computes it in 64 bits and subtracts before it looks at the sign.

* `remaining_zero_iff`  a loop takes the message when nothing is left;
* `waitTime_iff`        the helper and `remaining`;
* `faster_new`, `faster_found`  what the call does;
* `faster_iff`          the message it acts on.
-/

namespace MessageQueue
open State

/-! ## remaining time -/

/-- the delay that runs, none for a message that does not wait -/
def MessageWrapper.delay (it : MessageWrapper) : Option Int64 :=
  match it.timing.type, it.periodstatus with
  | .kImmediately, _ => none
  | .kAfter, _ => some it.timing.after
  | .kPeriod, .kAfter => some it.timing.after
  | .kPeriod, .kPeriod => some it.timing.period
  | .kPeriod, .kImmediately => none

/-- the delay without the ticks that have gone by -/
def MessageWrapper.left (now : UInt64) (it : MessageWrapper) (delay : Int64) : Int :=
  delay.toInt - (gettickspan now it.record_time).toInt

def remaining (now : UInt64) (it : MessageWrapper) : Int :=
  it.delay.elim 0 fun delay => max 0 (it.left now delay)

/-- that of a timing which begins now -/
def MessageTiming.remaining (g : MessageTiming) : Int :=
  if g.type = .kImmediately then 0 else max 0 g.after.toInt

section
variable {now : UInt64} {it : MessageWrapper}

/-- a loop takes a message when nothing is left; a periodic one has its status from the constructor -/
theorem remaining_zero_iff (h : it.timing.type = .kPeriod → it.periodstatus ≠ .kImmediately) :
    remaining now it = 0 ↔ due now it = true := by
  have hle : ∀ delay : Int64, max 0 (it.left now delay) = 0 ↔
      decide (delay ≤ gettickspan now it.record_time) = true := by
    intro delay
    unfold MessageWrapper.left
    rw [decide_eq_true_eq, Int64.le_iff_toInt_le]
    omega
  unfold remaining MessageWrapper.delay due
  cases ht : it.timing.type with
  | kImmediately => exact ⟨fun _ => rfl, fun _ => rfl⟩
  | kAfter => exact hle _
  | kPeriod =>
    cases hp : it.periodstatus with
    | kAfter => exact hle _
    | kPeriod => exact hle _
    | kImmediately => exact absurd hp (h ht)

/-- the time left is an `int64_t` -/
def Computed (now : UInt64) (it : MessageWrapper) : Prop :=
  ∀ delay, it.delay = some delay → -2 ^ 63 ≤ it.left now delay ∧ it.left now delay < 2 ^ 63

theorem difference_some {a b : Int64} (h : -2 ^ 63 ≤ a.toInt - b.toInt ∧ a.toInt - b.toInt < 2 ^ 63) :
    ∃ d, difference a b = some d ∧ d.toInt = a.toInt - b.toInt := by
  refine ⟨a - b, if_pos h, ?_⟩
  rw [Int64.toInt_sub]
  exact Int.bmod_eq_of_le (by omega) (by omega)

theorem waitTime_delay (now : UInt64) (it : MessageWrapper) : computerWaitTime now it =
    (it.delay.elim (some 0) fun delay => difference delay (gettickspan now it.record_time)).map
      fun wait_time => if 0 < wait_time then wait_time else 0 := by
  unfold computerWaitTime MessageWrapper.delay
  cases it.timing.type with
  | kImmediately => rfl
  | kAfter => rfl
  | kPeriod =>
    cases it.periodstatus with
    | kImmediately => rfl
    | kAfter => rfl
    | kPeriod => rfl

theorem positive_toInt (x : Int64) : (if 0 < x then x else 0).toInt = max 0 x.toInt := by
  split
  · rename_i h
    rw [Int64.lt_iff_toInt_lt, Int64.toInt_zero] at h
    omega
  · rename_i h
    rw [Int64.lt_iff_toInt_lt, Int64.toInt_zero] at h
    rw [Int64.toInt_zero]
    omega

/-- **The helper** gives what remains where the time left is an `int64_t`. -/
theorem waitTime_some (h : Computed now it) :
    ∃ wait, computerWaitTime now it = some wait ∧ wait.toInt = remaining now it := by
  rw [waitTime_delay]
  unfold remaining
  cases hd : it.delay with
  | none => exact ⟨0, rfl, rfl⟩
  | some delay =>
    obtain ⟨d, hdiff, hval⟩ := difference_some (h delay hd)
    refine ⟨_, Option.map_eq_some_iff.mpr ⟨d, hdiff, rfl⟩, ?_⟩
    rw [positive_toInt, hval]
    rfl

theorem waitTime_none (h : ¬ Computed now it) : computerWaitTime now it = none := by
  rw [waitTime_delay, Option.map_eq_none_iff]
  unfold Computed at h
  cases hd : it.delay with
  | none =>
    rw [hd] at h
    exact absurd (fun _ hnone => by cases hnone) h
  | some delay =>
    refine if_neg (fun hr => h (fun d hsome => ?_))
    obtain rfl := Option.some.inj (hd.symm.trans hsome)
    exact hr

theorem waitTime_iff {wait : Int64} : computerWaitTime now it = some wait ↔
    Computed now it ∧ wait.toInt = remaining now it := by
  by_cases hc : Computed now it
  · obtain ⟨w, hw, hval⟩ := waitTime_some hc
    rw [hw, Option.some.injEq, and_iff_right hc, ← hval, Int64.toInt_inj]
    exact eq_comm
  · rw [waitTime_none hc]
    exact iff_of_false (fun h => by cases h) (fun h => hc h.1)

/-- the comparison of the wait times is that of the remaining times -/
theorem sooner_eq {w : MessageWrapper} (h : Computed now it) (hw : Computed now w) :
    sooner now it w = some (decide (remaining now it < remaining now w)) := by
  obtain ⟨a, ha, hra⟩ := waitTime_some h
  obtain ⟨b, hb, hrb⟩ := waitTime_some hw
  unfold sooner
  rw [ha, hb, ← hra, ← hrb]
  exact congrArg some (decide_eq_decide.mpr Int64.lt_iff_toInt_lt)

end

theorem gettickspan_self (now : UInt64) : gettickspan now now = 0 := by
  unfold gettickspan
  split
  · rfl
  · rw [UInt64.sub_self]
    rfl

theorem newWrapper_remaining (g : MessageTiming) (s : State) (it : MessageWrapper) (ht : it.timing = g)
    (hp : it.periodstatus = if g.type ≠ .kImmediately then .kAfter else .kImmediately)
    (hr : it.record_time = if g.type ≠ .kImmediately then s.now else 0) :
    remaining s.now it = g.remaining ∧ Computed s.now it := by
  have hleft : g.type ≠ .kImmediately → it.left s.now g.after = g.after.toInt := by
    intro hne
    unfold MessageWrapper.left
    rw [hr, if_pos hne, gettickspan_self, Int64.toInt_zero, Int.sub_zero]
  have hdelay : it.delay = if g.type ≠ .kImmediately then some g.after else none := by
    unfold MessageWrapper.delay
    rw [ht, hp]
    cases g.type <;> rfl
  unfold remaining MessageTiming.remaining Computed
  rw [hdelay]
  by_cases hne : g.type = .kImmediately
  · rw [if_neg (not_not.mpr hne), if_pos hne]
    exact ⟨rfl, fun _ hd => by cases hd⟩
  · rw [if_pos hne, if_neg hne]
    refine ⟨congrArg (max 0) (hleft hne), fun d hd => ?_⟩
    obtain rfl := Option.some.inj hd
    rw [hleft hne]
    exact ⟨g.after.le_toInt, g.after.toInt_lt⟩

/-! ## the call -/

/-- the message a call has acted on: the new one at the end, or where it has made none the one that
was found -/
def actedOn (_handlerid : MessageHandler_t) (_message : Message) (s s' : State) :
    Option MessageWrapper :=
  if s'.next = s.next then (s.pending _handlerid.queue).find? (matching _handlerid _message)
  else (s'.pending _handlerid.queue).getLast?

/-- what is promised of the result of a `FasterMessage` -/
structure Hastened (h : MessageHandler_t) (m : Message) (g : MessageTiming) (s : State)
    (r : MessagePost_t × State) (w : MessageWrapper) : Prop where
  acted : actedOn h m s r.2 = some w
  pending : w ∈ r.2.pending h.queue
  postid : w.postid = r.1
  fresh : (s.pending h.queue).find? (matching h m) = none → remaining s.now w = g.remaining
  least : ∀ it, (s.pending h.queue).find? (matching h m) = some it →
    remaining s.now w = min (remaining s.now it) g.remaining ∧ w.postid = it.postid

section
variable {h : MessageHandler_t} {m : Message} {g : MessageTiming} {s : State}
  {content : MessageQueueContent} {it : MessageWrapper}

theorem faster_new (hq : s.map h.queue = some content)
    (hf : content.lst_message.find? (matching h m) = none) :
    ∃ w, s.fasterMessage h m g = some (w.postid, s.makeSeq.2.pushBack h.queue content w) ∧
      remaining s.now w = g.remaining := by
  refine ⟨s.makeSeq.2.newWrapper h m g s.makeSeq.1, fasterMessage_fresh g hq hf, ?_⟩
  exact (newWrapper_remaining g s _ rfl rfl rfl).1

theorem faster_found (hq : s.map h.queue = some content)
    (hf : content.lst_message.find? (matching h m) = some it) (hc : Computed s.now it) :
    ∃ w, w.postid = it.postid ∧ remaining s.now w = g.remaining ∧
      s.fasterMessage h m g =
        some (if remaining s.now it < g.remaining then (it.postid, s.makeSeq.2)
        else (w.postid, (s.makeSeq.2.erase h.queue content
          (content.lst_message.eraseP (matching h m)) it .replace).pushBack h.queue
            { content with lst_message := content.lst_message.eraseP (matching h m) } w)) := by
  obtain ⟨hrem, hnew⟩ := newWrapper_remaining g s (s.newWrapper h m g 0) rfl rfl rfl
  refine ⟨{ s.makeSeq.2.newWrapper h m g s.makeSeq.1 with postid := it.postid }, rfl,
    (newWrapper_remaining g s _ rfl rfl rfl).1, ?_⟩
  rw [fasterMessage_found g hq hf, sooner_eq hc hnew, hrem]
  by_cases hlt : remaining s.now it < g.remaining
  · rw [if_pos hlt, decide_eq_true hlt]
    rfl
  · rw [if_neg hlt, decide_eq_false hlt]
    rfl

theorem faster_none (hq : s.map h.queue = some content)
    (hf : content.lst_message.find? (matching h m) = some it) (hc : ¬ Computed s.now it) :
    s.fasterMessage h m g = none := by
  rw [fasterMessage_found g hq hf]
  unfold sooner
  rw [waitTime_none hc]
  rfl

theorem actedOn_pushBack (h : MessageHandler_t) (m : Message) (c : MessageQueueContent)
    (w : MessageWrapper) (s s' : State) (hn : s'.next = s.next) :
    actedOn h m s (s'.pushBack h.queue c w) = some w ∧ w ∈ (s'.pushBack h.queue c w).pending h.queue := by
  have hp : (s'.pushBack h.queue c w).pending h.queue = c.lst_message ++ [w] := by
    rw [pushBack_pending, Function.update_self]
  have hne : (s'.pushBack h.queue c w).next ≠ s.next := by
    show s'.next + 1 ≠ s.next
    omega
  refine ⟨?_, ?_⟩
  · unfold actedOn
    rw [if_neg hne, hp, List.getLast?_concat]
  · rw [hp]
    exact List.mem_append_right _ (List.mem_singleton_self w)

theorem hastened_found {r : MessagePost_t × State} {w : MessageWrapper}
    (hpend : (s.pending h.queue).find? (matching h m) = some it)
    (hacted : actedOn h m s r.2 = some w) (hmem : w ∈ r.2.pending h.queue) (hid : w.postid = r.1)
    (hsame : w.postid = it.postid) (hmin : remaining s.now w = min (remaining s.now it) g.remaining) :
    Hastened h m g s r w := by
  refine ⟨hacted, hmem, hid, fun hnone => ?_, fun x hx => ?_⟩
  · rw [hpend] at hnone
    cases hnone
  · obtain rfl := Option.some.inj (hpend.symm.trans hx)
    exact ⟨hmin, hsame⟩

theorem faster_hastened (hq : s.map h.queue = some content)
    (hf : content.lst_message.find? (matching h m) = some it) (hc : Computed s.now it) :
    ∃ r w, s.fasterMessage h m g = some r ∧ Hastened h m g s r w := by
  have hpend : (s.pending h.queue).find? (matching h m) = some it := by
    rw [pending_some hq, hf]
  obtain ⟨w, hid, hw, hcall⟩ := faster_found (g := g) hq hf hc
  by_cases hlt : remaining s.now it < g.remaining
  · rw [if_pos hlt] at hcall
    have hacted : actedOn h m s s.makeSeq.2 = some it := by
      unfold actedOn
      rw [if_pos (show s.makeSeq.2.next = s.next from rfl), hpend]
    refine ⟨_, it, hcall, hastened_found hpend hacted (List.mem_of_find?_eq_some hpend) rfl rfl ?_⟩
    omega
  · rw [if_neg hlt] at hcall
    obtain ⟨hacted, hmem⟩ := actedOn_pushBack h m
      { content with lst_message := content.lst_message.eraseP (matching h m) } w s
      (s.makeSeq.2.erase h.queue content (content.lst_message.eraseP (matching h m)) it .replace) rfl
    refine ⟨_, w, hcall, hastened_found hpend hacted hmem rfl hid ?_⟩
    rw [hw]
    omega

end

/-- **`FasterMessage`**: a call that finds its queue has an outcome, and the message it has acted on
waits for the lesser of the two times, exactly when the time left for the message that is found is
an `int64_t`. -/
theorem faster_iff (h : MessageHandler_t) (m : Message) (g : MessageTiming) (s : State)
    (content : MessageQueueContent) (hq : s.map h.queue = some content) :
    (∃ r w, s.fasterMessage h m g = some r ∧ Hastened h m g s r w) ↔
      ∀ it, content.lst_message.find? (matching h m) = some it → Computed s.now it := by
  constructor
  · rintro ⟨r, w, hcall, -⟩ it hf
    by_contra hc
    rw [faster_none hq hf hc] at hcall
    cases hcall
  · intro hc
    cases hf : content.lst_message.find? (matching h m) with
    | none =>
      obtain ⟨w, hcall, hw⟩ := faster_new (g := g) hq hf
      obtain ⟨hacted, hmem⟩ := actedOn_pushBack h m content w s s.makeSeq.2 rfl
      refine ⟨_, w, hcall, hacted, hmem, rfl, fun _ => hw, fun it hit => ?_⟩
      rw [pending_some hq, hf] at hit
      cases hit
    | some it => exact faster_hastened hq hf (hc it hf)

def halfSecond : MessageQueueContent where
  invoke_reg := ⟨7, 1⟩
  lst_message := [⟨1, ⟨⟨7, 1⟩, 2⟩, ⟨1, none⟩, ⟨.kAfter, 1000, 0⟩, .kAfter, 100⟩]

theorem faster_iff_half : ∃ r w, fasterMessage ⟨7, 1⟩ ⟨1, none⟩ ⟨.kAfter, 100, 0⟩
    { now := 600, map := Function.update (fun _ => none) 7 (some halfSecond) } = some r ∧
    Hastened ⟨7, 1⟩ ⟨1, none⟩ ⟨.kAfter, 100, 0⟩
      { now := 600, map := Function.update (fun _ => none) 7 (some halfSecond) } r w := by
  refine (faster_iff ⟨7, 1⟩ ⟨1, none⟩ ⟨.kAfter, 100, 0⟩ _ halfSecond
    rfl).mpr (fun it hit delay hdelay => ?_)
  obtain rfl := Option.some.inj hit
  obtain rfl := Option.some.inj hdelay
  exact ⟨by decide, by decide⟩

/-- the least delay of 64 bits -/
def ever : MessageTiming := ⟨.kAfter, Int64.minValue, 0⟩

def overdue : List Act :=
  [.call 1 (.createMessageQueueInfo 7), .call 1 (.postMessage ⟨7, 1⟩ ⟨1, none⟩ ever), .tick 1]

/-- **A message that is due** has a time left that is no `int64_t`: its delay less the tick
overflows. -/
theorem faster_overdue : ∃ s, Runs.exec step init overdue = some s ∧
    (s.map 7).isSome ∧ ¬ ∃ r w, s.fasterMessage ⟨7, 1⟩ ⟨1, none⟩ ⟨.kAfter, 1000, 0⟩ = some r ∧
      Hastened ⟨7, 1⟩ ⟨1, none⟩ ⟨.kAfter, 1000, 0⟩ s r w := by
  obtain ⟨s, hs⟩ := Option.isSome_iff_exists.mp
    (show (Runs.exec step init overdue).isSome = true by decide)
  have hview : (Runs.exec step init overdue).map (fun s => (s.now, (s.map 7).map (·.lst_message))) =
      some (1, some [⟨1, ⟨⟨7, 1⟩, 2⟩, ⟨1, none⟩, ever, .kAfter, 0⟩]) := by decide
  rw [hs] at hview
  obtain ⟨hnow, hmap⟩ := Prod.mk.inj (Option.some.inj hview)
  obtain ⟨content, hq, hlst⟩ := Option.map_eq_some_iff.mp hmap
  refine ⟨s, hs, hq ▸ rfl, ?_⟩
  rintro ⟨r, w, hcall, -⟩
  have hf : content.lst_message.find? (matching ⟨7, 1⟩ ⟨1, none⟩) =
      some ⟨1, ⟨⟨7, 1⟩, 2⟩, ⟨1, none⟩, ever, .kAfter, 0⟩ := by
    rw [hlst]
    rfl
  rw [faster_none hq hf (fun hc => ?_)] at hcall
  · cases hcall
  · rw [hnow] at hc
    exact absurd (hc ever.after rfl).1 (by decide)

end MessageQueue
