import LearnDiary.Lib.Elements
import LearnDiary.MessageQueue.Steps

/-!
# Message queues: the ledger of the entries

The lists `lst_message` of all queues and the history change in six ways only (`Entry`): nothing
happens to them, an entry comes in at the end, one is replaced by a new one at the end, one is
deleted, a one-shot one is taken by a loop, or a periodic one is run in its place.  A loop never
passes an immediate message.

* `Move.entry`      every move is one of the six;
* `Entries`         addresses ascend along each list, and every entry has come in once;
* `Reachable.entries`  in every reachable state.
-/

namespace MessageQueue
open State

/-- events that say nothing about the lists -/
def Event.quiet : Event → Bool
  | .enqueue _ => false
  | .remove _ _ => false
  | .pick _ _ => false
  | _ => true

/-- what of a wrapper never changes -/
def MessageWrapper.fixed (w : MessageWrapper) : MessageWrapper :=
  { w with periodstatus := .kAfter, record_time := 0 }

/-- the same message, a one-shot one unchanged -/
def MessageWrapper.Same (w w' : MessageWrapper) : Prop :=
  w.fixed = w'.fixed ∧ (w.oneShot = true → w = w')

section
variable {w w' : MessageWrapper}

theorem fixed_self (h : w.fixed = w'.fixed) : w.self = w'.self := by
  show w.fixed.self = w'.fixed.self
  rw [h]

theorem fixed_postid (h : w.fixed = w'.fixed) : w.postid = w'.postid := by
  show w.fixed.postid = w'.fixed.postid
  rw [h]

theorem fixed_timing (h : w.fixed = w'.fixed) : w.timing = w'.timing := by
  show w.fixed.timing = w'.fixed.timing
  rw [h]

theorem fixed_message (h : w.fixed = w'.fixed) : w.message = w'.message := by
  show w.fixed.message = w'.fixed.message
  rw [h]

theorem fixed_oneShot (h : w.fixed = w'.fixed) : w.oneShot = w'.oneShot := by
  unfold MessageWrapper.oneShot
  rw [fixed_timing h]

theorem fixed_immediate (h : w.fixed = w'.fixed) : w.immediate = w'.immediate := by
  unfold MessageWrapper.immediate
  rw [fixed_timing h]

theorem MessageWrapper.Same.refl (w : MessageWrapper) : w.Same w := ⟨rfl, fun _ => rfl⟩

theorem MessageWrapper.Same.trans {w'' : MessageWrapper} (h : w.Same w') (h' : w'.Same w'') : w.Same w'' := by
  refine ⟨h.1.trans h'.1, fun hw => ?_⟩
  have hw' : w'.oneShot = true := by rw [← fixed_oneShot h.1]; exact hw
  rw [h.2 hw, h'.2 hw']

theorem immediate_oneShot (h : w.immediate = true) : w.oneShot = true := by
  unfold MessageWrapper.immediate at h
  unfold MessageWrapper.oneShot
  rw [eq_of_beq h]
  rfl

end

/-! ## the scan -/

/-- the scan takes the entry when it comes to it -/
def due (now : UInt64) (it : MessageWrapper) : Bool :=
  match it.timing.type, it.periodstatus with
  | .kImmediately, _ => true
  | .kAfter, _ => it.timing.after ≤ gettickspan now it.record_time
  | .kPeriod, .kAfter => it.timing.after ≤ gettickspan now it.record_time
  | .kPeriod, .kPeriod => it.timing.period ≤ gettickspan now it.record_time
  | .kPeriod, .kImmediately => false

/-- an entry as it is run: a periodic one starts a new period -/
def MessageWrapper.rearm (now : UInt64) (it : MessageWrapper) : MessageWrapper :=
  if it.oneShot then it else { it with record_time := now, periodstatus := .kPeriod }

theorem due_immediate {now : UInt64} {it : MessageWrapper} (h : it.immediate = true) :
    due now it = true := by
  unfold MessageWrapper.immediate at h
  unfold due
  rw [eq_of_beq h]

theorem not_immediate {now : UInt64} {it : MessageWrapper} (h : due now it = false) :
    it.immediate = false := by
  by_contra himm
  rw [due_immediate (Bool.not_eq_false _ ▸ himm)] at h
  cases h

theorem same_rearm (now : UInt64) (it : MessageWrapper) : it.Same (it.rearm now) := by
  unfold MessageWrapper.rearm
  split
  · exact .refl it
  · rename_i h
    exact ⟨rfl, fun h' => absurd h' h⟩

theorem oneShot_of_type {it : MessageWrapper} {k : TMessageTiming} (h : it.timing.type = k) :
    it.oneShot = (k != .kPeriod) := by
  unfold MessageWrapper.oneShot
  rw [h]

theorem rearm_once {it : MessageWrapper} (now : UInt64) (h : it.oneShot = true) : it.rearm now = it :=
  if_pos h

theorem rearm_period {it : MessageWrapper} (now : UInt64) (h : it.oneShot = false) :
    it.rearm now = { it with record_time := now, periodstatus := .kPeriod } := by
  unfold MessageWrapper.rearm
  rw [h]
  rfl

inductive Scanned (now : UInt64) (it : MessageWrapper) (rest : List MessageWrapper) : Scan → Prop
  | found (hdue : due now it = true) : Scanned now it rest
      (.found (it.rearm now) it.oneShot (if it.oneShot then rest else it.rearm now :: rest))
  | passed (k : Int64) (hdue : due now it = false) :
      Scanned now it rest ((scan now k rest).behind it)
  | overflow : Scanned now it rest .overflow

/-- an entry with a delay: it is taken as `x`, or the difference goes into the time-out -/
theorem scanned_delay {now : UInt64} {it : MessageWrapper} {rest : List MessageWrapper} {x : Scan}
    {delay time_cost : Int64} (n : Int64) (hdue : due now it = decide (delay ≤ time_cost))
    (hx : due now it = true → Scanned now it rest x) :
    Scanned now it rest (if delay ≤ time_cost then x
      else match difference delay time_cost with
        | some left => (scan now (min n left) rest).behind it
        | none => .overflow) := by
  split
  · rename_i hle
    exact hx (hdue.trans (decide_eq_true hle))
  · rename_i hle
    cases difference delay time_cost with
    | some left => exact .passed _ (hdue.trans (decide_eq_false hle))
    | none => exact .overflow

theorem scan_cons (now : UInt64) (n : Int64) (it : MessageWrapper) (rest : List MessageWrapper) :
    Scanned now it rest (scan now n (it :: rest)) := by
  have hdue := due.eq_def now it
  have honce : it.oneShot = true → due now it = true →
      Scanned now it rest (.found it true rest) := by
    intro h hd
    have hfound : Scanned now it rest _ := .found hd
    rw [rearm_once now h, h] at hfound
    exact hfound
  have hperiod : it.oneShot = false → due now it = true → Scanned now it rest
      (.found { it with record_time := now, periodstatus := .kPeriod } false
        ({ it with record_time := now, periodstatus := .kPeriod } :: rest)) := by
    intro h hd
    have hfound : Scanned now it rest _ := .found hd
    rw [rearm_period now h, h] at hfound
    exact hfound
  rw [scan]
  dsimp only
  cases ht : it.timing.type with
  | kImmediately =>
    rw [ht] at hdue
    exact honce (oneShot_of_type ht) hdue
  | kAfter =>
    rw [ht] at hdue
    exact scanned_delay n hdue (honce (oneShot_of_type ht))
  | kPeriod =>
    cases hp : it.periodstatus with
    | kAfter =>
      rw [ht, hp] at hdue
      exact scanned_delay n hdue (hperiod (oneShot_of_type ht))
    | kPeriod =>
      rw [ht, hp] at hdue
      exact scanned_delay n hdue (hperiod (oneShot_of_type ht))
    | kImmediately =>
      rw [ht, hp] at hdue
      exact .passed n hdue

/-- **What the scan finds**: the first entry that is due. -/
theorem scan_found {now : UInt64} {n : Int64} {l : List MessageWrapper} {w : MessageWrapper}
    {d : Bool} {lst : List MessageWrapper} (h : scan now n l = .found w d lst) :
    ∃ l₁ it l₂, l = l₁ ++ it :: l₂ ∧ (∀ x ∈ l₁, due now x = false) ∧ due now it = true ∧
      w = it.rearm now ∧ d = it.oneShot ∧ lst = if it.oneShot then l₁ ++ l₂ else l₁ ++ w :: l₂ := by
  induction l generalizing n lst with
  | nil => cases h
  | cons it rest ih =>
    have hcons := scan_cons now n it rest
    rw [h] at hcons
    generalize hres : Scan.found w d lst = res at hcons
    cases hcons with
    | overflow => cases hres
    | found hdue =>
      cases hres
      exact ⟨[], it, rest, rfl, fun _ hx => (by cases hx), hdue, rfl, rfl, rfl⟩
    | passed k hdue =>
      have h := hres.symm
      cases e : scan now k rest with
      | idle j =>
        rw [e] at h
        cases h
      | overflow =>
        rw [e] at h
        cases h
      | found w' d' lst' =>
        rw [e] at h
        cases h
        obtain ⟨l₁, it', l₂, rfl, hno, hit, hw, hd, hl⟩ := ih e
        refine ⟨it :: l₁, it', l₂, rfl, ?_, hit, hw, hd, ?_⟩
        · intro x hx
          rcases List.mem_cons.mp hx with rfl | hx
          · exact hdue
          · exact hno x hx
        · rw [hl]
          split
          · rfl
          · rfl

/-- a loop that goes to sleep has found nothing due -/
theorem scan_idle {now : UInt64} {n k : Int64} {l : List MessageWrapper}
    (h : scan now n l = .idle k) : ∀ x ∈ l, due now x = false := by
  induction l generalizing n k with
  | nil => exact fun _ hx => by cases hx
  | cons it rest ih =>
    have hcons := scan_cons now n it rest
    rw [h] at hcons
    generalize hres : Scan.idle k = res at hcons
    cases hcons with
    | overflow => cases hres
    | found hdue => cases hres
    | passed j hdue =>
      have h := hres.symm
      intro x hx
      cases e : scan now j rest with
      | found w d lst =>
        rw [e] at h
        cases h
      | overflow =>
        rw [e] at h
        cases h
      | idle i =>
        rcases List.mem_cons.mp hx with rfl | hx
        · exact hdue
        · exact ih e x hx

/-! ## the lists of the queues -/

section
variable (s : State) (q : MessageQueue_t) (c : Option MessageQueueContent)

theorem setQueue_pending :
    (s.setQueue q c).pending = Function.update s.pending q (c.elim [] (·.lst_message)) := by
  funext p
  unfold pending setQueue
  dsimp only
  by_cases h : p = q
  · subst h
    rw [Function.update_self, Function.update_self]
  · rw [Function.update_of_ne h, Function.update_of_ne h]

theorem setQueue_same (h : c.elim [] (·.lst_message) = s.pending q) :
    (s.setQueue q c).pending = s.pending := by
  rw [setQueue_pending, h, Function.update_eq_self]

end

theorem returned_pending (t : Thread) (f : Frame) (s : State) :
    (s.returned t f).pending = s.pending := by
  unfold returned
  split
  · rfl
  · rfl

theorem returned_log (t : Thread) (f : Frame) (s : State) : (s.returned t f).log = s.log := by
  unfold returned
  split
  · rfl
  · rfl

theorem returned_next (t : Thread) (f : Frame) (s : State) : (s.returned t f).next = s.next := by
  unfold returned
  split
  · rfl
  · rfl

variable {D : State → MessageWrapper → Why → Prop} {E : Guard → Prop} {s s' : State}

/-- what a move does to the lists and the history -/
inductive Entry (D : State → MessageWrapper → Why → Prop) (E : Guard → Prop) (s s' : State) : Prop
  | quiet (hp : s'.pending = s.pending) (hn : s.next ≤ s'.next) (es : List Event)
      (hq : ∀ e ∈ es, e.quiet = true) (hl : s'.log = es ++ s.log)
  | enqueue (q : MessageQueue_t) (w : MessageWrapper) (he : E .post) (hself : w.self = s.next)
      (hq : w.postid.reg.queue = q)
      (hp : s'.pending = Function.update s.pending q (s.pending q ++ [w]))
      (hn : s'.next = s.next + 1) (hl : s'.log = .enqueue w :: .draw w.postid.seq :: s.log)
  | replace (q : MessageQueue_t) (l₁ : List MessageWrapper) (w : MessageWrapper)
      (l₂ : List MessageWrapper) (w' : MessageWrapper) (hl₀ : s.pending q = l₁ ++ w :: l₂)
      (hself : w'.self = s.next) (hid : w'.postid = w.postid)
      (hm : w'.message.title = w.message.title) (hq : w.postid.reg.queue = q)
      (hd : D s w .replace) (hp : s'.pending = Function.update s.pending q (l₁ ++ l₂ ++ [w']))
      (hn : s'.next = s.next + 1) (hl : s'.log = .enqueue w' :: .remove w .replace :: s.log)
  | delete (q : MessageQueue_t) (l₁ : List MessageWrapper) (w : MessageWrapper)
      (l₂ : List MessageWrapper) (why : Why) (hl₀ : s.pending q = l₁ ++ w :: l₂)
      (hd : why ≠ .release → D s w why)
      (hp : s'.pending = Function.update s.pending q (l₁ ++ l₂)) (hn : s'.next = s.next)
      (hl : s'.log = .remove w why :: s.log) (hr : why = .release → s.infos q = [])
  | take (q : MessageQueue_t) (l₁ : List MessageWrapper) (w : MessageWrapper)
      (l₂ : List MessageWrapper) (fit : List HandlerWrapper)
      (hl₀ : s.pending q = l₁ ++ w :: l₂) (hno : ∀ x ∈ l₁, x.immediate = false)
      (hone : w.oneShot = true) (hp : s'.pending = Function.update s.pending q (l₁ ++ l₂))
      (hn : s'.next = s.next) (hl : s'.log = .pick w fit :: s.log)
  | fire (q : MessageQueue_t) (l₁ : List MessageWrapper) (w : MessageWrapper)
      (l₂ : List MessageWrapper) (w' : MessageWrapper) (fit : List HandlerWrapper)
      (hl₀ : s.pending q = l₁ ++ w :: l₂) (hno : ∀ x ∈ l₁, x.immediate = false)
      (hone : w.oneShot = false) (hw' : w.Same w')
      (hp : s'.pending = Function.update s.pending q (l₁ ++ w' :: l₂)) (hn : s'.next = s.next)
      (hl : s'.log = .pick w' fit :: s.log)

theorem Entry.idle (hp : s'.pending = s.pending) (hn : s.next ≤ s'.next) (hl : s'.log = s.log) :
    Entry D E s s' :=
  .quiet hp hn [] (fun _ h => by cases h) hl

theorem Entry.event (e : Event) (he : e.quiet = true) (hp : s'.pending = s.pending)
    (hn : s.next ≤ s'.next) (hl : s'.log = e :: s.log) : Entry D E s s' :=
  .quiet hp hn [e] (fun x hx => by rw [List.mem_singleton.mp hx]; exact he) hl

theorem Entry.log (h : Entry D E s s') : ∃ es, s'.log = es ++ s.log := by
  cases h with
  | quiet hp hn es hq hl => exact ⟨es, hl⟩
  | enqueue q w he hself hq hp hn hl => exact ⟨[.enqueue w, .draw w.postid.seq], hl⟩
  | replace q l₁ w l₂ w' hl₀ hself hid hm hq hd hp hn hl =>
    exact ⟨[.enqueue w', .remove w .replace], hl⟩
  | delete q l₁ w l₂ why hl₀ hd hp hn hl => exact ⟨[.remove w why], hl⟩
  | take q l₁ w l₂ fit hl₀ hno hone hp hn hl => exact ⟨[.pick w fit], hl⟩
  | fire q l₁ w l₂ w' fit hl₀ hno hone hw' hp hn hl => exact ⟨[.pick w' fit], hl⟩

/-- **A move changes the lists in one of six ways.** -/
theorem Entry.next_le (h : Entry D E s s') : s.next ≤ s'.next := by
  cases h with
  | quiet hp hn es hq hl => exact hn
  | enqueue q w he hself hq hp hn hl => omega
  | replace q l₁ w l₂ w' hl₀ hself hid hm hq hd hp hn hl => omega
  | delete q l₁ w l₂ why hl₀ hd hp hn hl hr => exact hn.ge
  | take q l₁ w l₂ fit hl₀ hno hone hp hn hl => exact hn.ge
  | fire q l₁ w l₂ w' fit hl₀ hno hone hw' hp hn hl => exact hn.ge

theorem Move.entry (h : Move D E s s') : Entry D E s s' := by
  cases h with
  | tick d => exact .idle rfl le_rfl rfl
  | draw => exact .event (.draw (s.s_seq + 1)) rfl rfl le_rfl rfl
  | create q hq hn =>
    refine .quiet ?_ le_rfl [.install _, .create q, .draw (s.s_seq + 1)] ?_ rfl
    · refine setQueue_same s.makeSeq.2 q _ ?_
      show [] = (s.map q).elim [] _
      rw [hn]
      rfl
    · intro e he
      simp only [List.mem_cons, List.not_mem_nil, or_false] at he
      rcases he with rfl | rfl | rfl
      · rfl
      · rfl
      · rfl
  | install q c x hc hreg =>
    refine .quiet ?_ le_rfl [.install x, .draw (s.s_seq + 1)] ?_ rfl
    · refine setQueue_same s.makeSeq.2 q _ ?_
      exact (pending_some hc).symm
    · intro e he
      simp only [List.mem_cons, List.not_mem_nil, or_false] at he
      rcases he with rfl | rfl
      · rfl
      · rfl
  | uninstall q c l₁ x l₂ hc hl =>
    exact .event (.uninstall x) rfl (setQueue_same s q _ (pending_some hc).symm) le_rfl rfl
  | enqueue q c w hc hself hseq hq he =>
    refine .enqueue q w he hself hq ?_ rfl ?_
    · rw [pending_some hc]
      exact setQueue_pending _ q _
    · rw [hseq]
      rfl
  | replace q c l₁ w l₂ w' hc hl hself hid hm hq hd =>
    refine .replace q l₁ w l₂ w' ((pending_some hc).trans hl) hself hid hm hq hd ?_ rfl rfl
    have h1 : ((s.erase q c (l₁ ++ l₂) w .replace).pushBack q { c with lst_message := l₁ ++ l₂ }
        w').pending = Function.update (s.erase q c (l₁ ++ l₂) w .replace).pending q
          (l₁ ++ l₂ ++ [w']) := setQueue_pending _ q _
    have h2 : (s.erase q c (l₁ ++ l₂) w .replace).pending =
        Function.update s.pending q (l₁ ++ l₂) := setQueue_pending s q _
    rw [h1, h2, Function.update_idem]
  | delete q c l₁ w l₂ why hc hl hd hr =>
    refine .delete q l₁ w l₂ why ((pending_some hc).trans hl) hd (setQueue_pending s q _) rfl rfl ?_
    intro hw
    rw [infos_some hc, hr hw]
  | setBreak q c hc => exact .idle (setQueue_same s q _ (pending_some hc).symm) le_rfl rfl
  | enter t b c hk hc =>
    refine .idle ?_ (Nat.le_succ _) rfl
    exact setQueue_same { s with next := s.next + 1 } t _ (pending_some hc).symm
  | clear t c f rest front info hk hf hpc hc hi =>
    exact .idle (setQueue_same s t _ (pending_some hc).symm) le_rfl rfl
  | pop t c f rest front info hk hf hpc hc hi hb =>
    refine .idle ?_ ?_ ?_
    · rw [returned_pending]
      exact setQueue_same s t _ (pending_some hc).symm
    · rw [returned_next]
      exact le_rfl
    · rw [returned_log]
      rfl
  | dropQueue t c hc hl hi =>
    refine .event (.release t) rfl (setQueue_same s t _ ?_) le_rfl rfl
    rw [pending_some hc, hl]
    rfl
  | idle t c f rest n hk hf hpc hc hs => exact .event (.idle t) rfl rfl le_rfl rfl
  | pick t c f rest front info w d lst hk hf hpc hc hi hs =>
    obtain ⟨l₁, it, l₂, hl, hdue, hit, hw, hd, hlst⟩ := scan_found hs
    have hl₀ : s.pending t = l₁ ++ it :: l₂ := (pending_some hc).trans hl
    have hno : ∀ x ∈ l₁, x.immediate = false := fun x hx => not_immediate (hdue x hx)
    have hsame : it.Same w := hw ▸ same_rearm s.now it
    have hp : ∀ x : MessageQueueContent, x.lst_message = lst →
        (s.setQueue t (some x)).pending = Function.update s.pending t lst := by
      intro x hx
      rw [setQueue_pending, ← hx]
      rfl
    cases hone : it.oneShot with
    | true =>
      rw [hone] at hlst
      rw [hsame.2 hone] at hl₀ hone
      exact .take t l₁ w l₂ _ hl₀ hno hone ((hp _ rfl).trans (by rw [hlst]; rfl)) rfl rfl
    | false =>
      rw [hone] at hlst
      exact .fire t l₁ it l₂ w _ hl₀ hno hone hsame ((hp _ rfl).trans (by rw [hlst]; rfl)) rfl rfl
  | wake t f rest n hk hf hpc => exact .idle rfl le_rfl rfl
  | invoke t f rest w d x l hk hf hpc => exact .event (.invoke w x) rfl rfl le_rfl rfl
  | handlerReturn t f rest w d x l hk hf hpc => exact .idle rfl le_rfl rfl
  | finish t f rest w hk hf hpc => exact .event (.destroy w) rfl rfl le_rfl rfl
  | finishPeriod t f rest w hk hf hpc => exact .idle rfl le_rfl rfl
  | turn t k hk => exact .idle rfl le_rfl rfl
  | come t e he =>
    refine .event e ?_ rfl le_rfl rfl
    cases he with
    | gone | ran | woken | unlocked | waited => rfl

/-! ## every entry has come in once -/

structure Entries (s : State) : Prop where
  ascending : ∀ q, ((s.pending q).map (·.self)).Pairwise (· < ·)
  below : ∀ q, ∀ w ∈ s.pending q, w.self < s.next
  home : ∀ q, ∀ w ∈ s.pending q, w.postid.reg.queue = q
  came : ∀ q, ∀ w ∈ s.pending q, ∃ w₀, .enqueue w₀ ∈ s.log ∧ w₀.Same w
  logged : ∀ w, .enqueue w ∈ s.log → w.self < s.next
  once : ∀ w w', .enqueue w ∈ s.log → .enqueue w' ∈ s.log → w.self = w'.self → w = w'
  picked : ∀ w fit, .pick w fit ∈ s.log → ∃ w₀, .enqueue w₀ ∈ s.log ∧ w₀.Same w
  removed : ∀ w why, .remove w why ∈ s.log → ∃ w₀, .enqueue w₀ ∈ s.log ∧ w₀.Same w

theorem lists_update {P : MessageQueue_t → List MessageWrapper → Prop} {q : MessageQueue_t}
    {l : List MessageWrapper} (h : ∀ p, P p (s.pending p))
    (hp : s'.pending = Function.update s.pending q l) (hl : P q l) : ∀ p, P p (s'.pending p) := by
  rw [hp]
  exact (Function.forall_update_iff _ P).mpr ⟨hl, fun p _ => h p⟩

theorem mem_lists {q p : MessageQueue_t} {l : List MessageWrapper} {w : MessageWrapper}
    (hp : s'.pending = Function.update s.pending q l) (hw : w ∈ s'.pending p) :
    w ∈ s.pending p ∨ p = q ∧ w ∈ l := by
  rw [hp] at hw
  exact Elements.mem_update hw

theorem Entries.init : Entries init where
  ascending _ := List.Pairwise.nil
  below _ _ h := by cases h
  home _ _ h := by cases h
  came _ _ h := by cases h
  logged _ h := by cases h
  once _ _ h := by cases h
  picked _ _ h := by cases h
  removed _ _ h := by cases h

section
variable {q : MessageQueue_t} {l₁ l₂ : List MessageWrapper} {w : MessageWrapper}

theorem Entries.mem_mid (hl : s.pending q = l₁ ++ w :: l₂) : w ∈ s.pending q := by
  rw [hl]
  exact List.mem_append_right _ List.mem_cons_self

theorem Entries.mem_rest (hl : s.pending q = l₁ ++ w :: l₂) {x : MessageWrapper}
    (hx : x ∈ l₁ ++ l₂) : x ∈ s.pending q := by
  rw [hl]
  rcases List.mem_append.mp hx with hx | hx
  · exact List.mem_append_left _ hx
  · exact List.mem_append_right _ (List.mem_cons_of_mem _ hx)

theorem Entries.ascending_rest (h : Entries s) (hl : s.pending q = l₁ ++ w :: l₂) :
    ((l₁ ++ l₂).map (·.self)).Pairwise (· < ·) := by
  have hsub : (l₁ ++ l₂).Sublist (s.pending q) := by
    rw [hl]
    exact List.Sublist.append_left (List.sublist_cons_self w l₂) l₁
  exact (h.ascending q).sublist (hsub.map _)

theorem Entries.ascending_push {l : List MessageWrapper} {x : MessageWrapper}
    (hl : (l.map (·.self)).Pairwise (· < ·)) (hb : ∀ y ∈ l, y.self < s.next)
    (hx : x.self = s.next) : ((l ++ [x]).map (·.self)).Pairwise (· < ·) := by
  rw [List.map_append, List.pairwise_append]
  refine ⟨hl, List.pairwise_singleton _ _, ?_⟩
  intro a ha b hb'
  obtain ⟨y, hy, rfl⟩ := List.mem_map.mp ha
  rw [List.map_cons, List.map_nil, List.mem_singleton] at hb'
  rw [hb', hx]
  exact hb y hy

/-- an event that brings no entry in, and takes none out that did not come in before -/
def Event.Known (log : List Event) : Event → Prop
  | .enqueue _ => False
  | .pick w _ => ∃ w₀, .enqueue w₀ ∈ log ∧ w₀.Same w
  | .remove w _ => ∃ w₀, .enqueue w₀ ∈ log ∧ w₀.Same w
  | _ => True

theorem Event.known_of_quiet {e : Event} {log : List Event} (h : e.quiet = true) :
    e.Known log := by
  cases e with
  | enqueue w => cases h
  | pick w fit => cases h
  | remove w why => cases h
  | _ => trivial

theorem Entries.more (h : Entries s) (es : List Event) (hl : s'.log = es ++ s.log)
    (hn : s.next ≤ s'.next) (hes : ∀ e ∈ es, e.Known s.log)
    (hasc : ∀ q, ((s'.pending q).map (·.self)).Pairwise (· < ·))
    (hmem : ∀ q, ∀ x ∈ s'.pending q, ∃ y ∈ s.pending q, y.Same x) : Entries s' := by
  have hback : ∀ x, .enqueue x ∈ s'.log → .enqueue x ∈ s.log := by
    intro x hx
    rw [hl] at hx
    rcases List.mem_append.mp hx with hx | hx
    · exact (hes _ hx).elim
    · exact hx
  have hforth : ∀ {x : MessageWrapper}, (∃ w₀, .enqueue w₀ ∈ s.log ∧ w₀.Same x) →
      ∃ w₀, .enqueue w₀ ∈ s'.log ∧ w₀.Same x := by
    rintro x ⟨w₀, h0, he⟩
    refine ⟨w₀, ?_, he⟩
    rw [hl]
    exact List.mem_append_right _ h0
  refine ⟨hasc, ?_, ?_, ?_, ?_, ?_, ?_, ?_⟩
  · intro q x hx
    obtain ⟨y, hy, he⟩ := hmem q x hx
    have h1 := h.below q y hy
    have h2 := fixed_self he.1
    omega
  · intro q x hx
    obtain ⟨y, hy, he⟩ := hmem q x hx
    rw [← fixed_postid he.1]
    exact h.home q y hy
  · intro q x hx
    obtain ⟨y, hy, he⟩ := hmem q x hx
    obtain ⟨w₀, h0, he0⟩ := h.came q y hy
    exact hforth ⟨w₀, h0, he0.trans he⟩
  · intro x hx
    exact lt_of_lt_of_le (h.logged x (hback x hx)) hn
  · intro x x' hx hx'
    exact h.once x x' (hback x hx) (hback x' hx')
  · intro x fit hx
    rw [hl] at hx
    rcases List.mem_append.mp hx with hx | hx
    · exact hforth (hes _ hx)
    · exact hforth (h.picked x fit hx)
  · intro x why hx
    rw [hl] at hx
    rcases List.mem_append.mp hx with hx | hx
    · exact hforth (hes _ hx)
    · exact hforth (h.removed x why hx)

theorem Entries.add (h : Entries s) (es : List Event) {x : MessageWrapper} {l : List MessageWrapper}
    (hself : x.self = s.next) (hq : x.postid.reg.queue = q) (hsub : ∀ y ∈ l, y ∈ s.pending q)
    (hasc : (l.map (·.self)).Pairwise (· < ·))
    (hp : s'.pending = Function.update s.pending q (l ++ [x])) (hn : s'.next = s.next + 1)
    (hl : s'.log = .enqueue x :: es ++ s.log) (hes : ∀ e ∈ es, e.Known s.log) :
    Entries s' := by
  have hlog : ∀ y, .enqueue y ∈ s'.log → y = x ∨ .enqueue y ∈ s.log := by
    intro y hy
    rw [hl, List.cons_append] at hy
    rcases List.mem_cons.mp hy with hy | hy
    · exact Or.inl (Event.enqueue.inj hy)
    · rcases List.mem_append.mp hy with hy | hy
      · exact (hes _ hy).elim
      · exact Or.inr hy
  have hforth : ∀ {y : MessageWrapper}, (∃ w₀, .enqueue w₀ ∈ s.log ∧ w₀.Same y) →
      ∃ w₀, .enqueue w₀ ∈ s'.log ∧ w₀.Same y := by
    rintro y ⟨w₀, h0, he⟩
    refine ⟨w₀, ?_, he⟩
    rw [hl]
    exact List.mem_append_right _ h0
  have hmem : ∀ p, ∀ y ∈ s'.pending p, y ∈ s.pending p ∨ p = q ∧ y = x := by
    intro p y hy
    rcases mem_lists hp hy with hy | ⟨rfl, hy⟩
    · exact Or.inl hy
    · rcases List.mem_append.mp hy with hy | hy
      · exact Or.inl (hsub y hy)
      · exact Or.inr ⟨rfl, List.mem_singleton.mp hy⟩
  refine ⟨?_, ?_, ?_, ?_, ?_, ?_, ?_, ?_⟩
  · exact lists_update (P := fun _ l => (l.map (·.self)).Pairwise (· < ·)) h.ascending hp
      (Entries.ascending_push hasc (fun y hy => h.below q y (hsub y hy)) hself)
  · intro p y hy
    rcases hmem p y hy with hy | ⟨-, rfl⟩
    · have := h.below p y hy
      omega
    · omega
  · intro p y hy
    rcases hmem p y hy with hy | ⟨rfl, rfl⟩
    · exact h.home p y hy
    · exact hq
  · intro p y hy
    rcases hmem p y hy with hy | ⟨-, rfl⟩
    · exact hforth (h.came p y hy)
    · refine ⟨y, ?_, .refl y⟩
      rw [hl]
      exact List.mem_cons_self
  · intro y hy
    rcases hlog y hy with rfl | hy
    · omega
    · have := h.logged y hy
      omega
  · intro y z hy hz e
    rcases hlog y hy with rfl | hy
    · rcases hlog z hz with rfl | hz
      · rfl
      · have := h.logged z hz
        omega
    · rcases hlog z hz with rfl | hz
      · have := h.logged y hy
        omega
      · exact h.once y z hy hz e
  · intro y fit hy
    rw [hl, List.cons_append] at hy
    rcases List.mem_cons.mp hy with hy | hy
    · cases hy
    · rcases List.mem_append.mp hy with hy | hy
      · exact hforth (hes _ hy)
      · exact hforth (h.picked y fit hy)
  · intro y why hy
    rw [hl, List.cons_append] at hy
    rcases List.mem_cons.mp hy with hy | hy
    · cases hy
    · rcases List.mem_append.mp hy with hy | hy
      · exact hforth (hes _ hy)
      · exact hforth (h.removed y why hy)

end

theorem Entries.step (h : Entries s) (he : Entry D E s s') : Entries s' := by
  cases he with
  | quiet hp hn es hq hl =>
    refine h.more es hl hn (fun e hm => Event.known_of_quiet (hq e hm)) ?_ ?_
    · rw [hp]
      exact h.ascending
    · rw [hp]
      exact fun q x hx => ⟨x, hx, .refl x⟩
  | enqueue q w he hself hq hp hn hl =>
    exact h.add [.draw w.postid.seq] hself hq (fun y hy => hy) (h.ascending q) hp hn hl
      (List.forall_mem_singleton.mpr trivial)
  | replace q l₁ w l₂ w' hl₀ hself hid hm hq hd hp hn hl =>
    have hcame : ∃ w₀, .enqueue w₀ ∈ s.log ∧ w₀.Same w := h.came q w (Entries.mem_mid hl₀)
    exact h.add [.remove w .replace] hself (by rw [hid]; exact hq)
      (fun y hy => Entries.mem_rest hl₀ hy) (h.ascending_rest hl₀) hp hn hl
      (List.forall_mem_singleton.mpr hcame)
  | delete q l₁ w l₂ why hl₀ hd hp hn hl =>
    have hcame : ∃ w₀, .enqueue w₀ ∈ s.log ∧ w₀.Same w := h.came q w (Entries.mem_mid hl₀)
    refine h.more [.remove w why] hl hn.ge (List.forall_mem_singleton.mpr hcame) ?_ ?_
    · exact lists_update (P := fun _ l => (l.map (·.self)).Pairwise (· < ·)) h.ascending hp
        (h.ascending_rest hl₀)
    · intro p x hx
      rcases mem_lists hp hx with hx | ⟨rfl, hx⟩
      · exact ⟨x, hx, .refl x⟩
      · exact ⟨x, Entries.mem_rest hl₀ hx, .refl x⟩
  | take q l₁ w l₂ fit hl₀ hno hone hp hn hl =>
    have hcame : ∃ w₀, .enqueue w₀ ∈ s.log ∧ w₀.Same w := h.came q w (Entries.mem_mid hl₀)
    refine h.more [.pick w fit] hl hn.ge (List.forall_mem_singleton.mpr hcame) ?_ ?_
    · exact lists_update (P := fun _ l => (l.map (·.self)).Pairwise (· < ·)) h.ascending hp
        (h.ascending_rest hl₀)
    · intro p x hx
      rcases mem_lists hp hx with hx | ⟨rfl, hx⟩
      · exact ⟨x, hx, .refl x⟩
      · exact ⟨x, Entries.mem_rest hl₀ hx, .refl x⟩
  | fire q l₁ w l₂ w' fit hl₀ hno hone hw' hp hn hl =>
    obtain ⟨w₀, h0, he0⟩ := h.came q w (Entries.mem_mid hl₀)
    have hcame : ∃ w₀, .enqueue w₀ ∈ s.log ∧ w₀.Same w' := ⟨w₀, h0, he0.trans hw'⟩
    refine h.more [.pick w' fit] hl hn.ge (List.forall_mem_singleton.mpr hcame) ?_ ?_
    · refine lists_update (P := fun _ l => (l.map (·.self)).Pairwise (· < ·)) h.ascending hp ?_
      have hmap : (l₁ ++ w' :: l₂).map (·.self) = (s.pending q).map (·.self) := by
        rw [hl₀, List.map_append, List.map_append, List.map_cons, List.map_cons, fixed_self hw'.1]
      rw [hmap]
      exact h.ascending q
    · intro p x hx
      rcases mem_lists hp hx with hx | ⟨rfl, hx⟩
      · exact ⟨x, hx, .refl x⟩
      · rcases List.mem_append.mp hx with hx | hx
        · exact ⟨x, Entries.mem_rest hl₀ (List.mem_append_left _ hx), .refl x⟩
        · rcases List.mem_cons.mp hx with rfl | hx
          · exact ⟨w, Entries.mem_mid hl₀, hw'⟩
          · exact ⟨x, Entries.mem_rest hl₀ (List.mem_append_right _ hx), .refl x⟩

theorem Entries.move (h : Entries s) (hm : Move D E s s') : Entries s' := h.step hm.entry

theorem Reachable.entries (h : Reachable s) : Entries s :=
  h.keep (fun _ _ hu hm => hu.move hm) Entries.init

end MessageQueue
