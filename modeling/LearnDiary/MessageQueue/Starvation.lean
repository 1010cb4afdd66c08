import LearnDiary.MessageQueue.Scans

/-!
# Message queues: periodic messages and the others

A scan runs the first entry that is due, and a periodic one keeps its place in the list.  A `lull`
is a scan that finds no timed message due in front of the first immediate one; it takes that one.

* `run_older`        a run makes no more of the immediate messages that were there before;
* `Head.lull_older`  a lull makes one less;
* `older_lulls`      runs;
* `no_starvation`    the messages behind as many lulls, or behind a sleep.
-/

namespace MessageQueue
open State History

variable {D : State → MessageWrapper → Why → Prop} {E : Guard → Prop} {s s' : State}
  {q : MessageQueue_t} {n : Nat} {w : MessageWrapper} {a : Act} {l : List Act} {es : List Event}

/-! ## lulls -/

/-- no timed message is due in front of the first immediate one -/
def State.lull (q : MessageQueue_t) (s : State) : Bool :=
  ((s.pending q).takeWhile fun it => !it.immediate).all fun it => !due s.now it

/-- the loop of the queue scans its list, it does not return -/
def scans (q : MessageQueue_t) (s : State) : Act → Bool
  | .loop t brk => t == q && !s.breaks t brk
  | _ => false

/-- how many scans of a schedule are lulls -/
def lulls (q : MessageQueue_t) : State → List Act → Nat
  | _, [] => 0
  | s, a :: l =>
    (if scans q s a && s.lull q then 1 else 0) + (step s a).elim 0 fun s' => lulls q s' l

/-- an immediate message that came in before the address `n` was given out -/
def MessageWrapper.olderThan (n : Nat) (w : MessageWrapper) : Bool :=
  w.immediate && decide (w.self < n)

def older (n : Nat) (q : MessageQueue_t) (s : State) : Nat :=
  (s.pending q).countP (MessageWrapper.olderThan n)

/-- the message is dispatched, or it is deleted from the list -/
def Settled (w : MessageWrapper) (es : List Event) : Prop :=
  (∃ fit_handler, .pick w fit_handler ∈ es) ∨ ∃ why, .remove w why ∈ es

theorem olderThan_iff : w.olderThan n = true ↔ w.immediate = true ∧ w.self < n := by
  unfold MessageWrapper.olderThan
  rw [Bool.and_eq_true, decide_eq_true_eq]

theorem fixed_olderThan {w' : MessageWrapper} (h : w.fixed = w'.fixed) :
    w.olderThan n = w'.olderThan n := by
  unfold MessageWrapper.olderThan
  rw [fixed_immediate h, fixed_self h]

theorem Settled.mono {es' : List Event} (h : Settled w es) (hsub : ∀ e ∈ es, e ∈ es') :
    Settled w es' := by
  rcases h with ⟨fit, h⟩ | ⟨why, h⟩
  · exact Or.inl ⟨fit, hsub _ h⟩
  · exact Or.inr ⟨why, hsub _ h⟩

/-! ## the old messages -/

/-- a move brings in messages that are younger -/
theorem Entry.older_le (h : Entry D E s s') (hn : n ≤ s.next) : older n q s' ≤ older n q s := by
  have hupdate : ∀ p m, s'.pending = Function.update s.pending p m →
      m.countP (MessageWrapper.olderThan n) ≤ older n p s → older n q s' ≤ older n q s := by
    intro p m hp hm
    exact lists_update (P := fun r m => m.countP (MessageWrapper.olderThan n) ≤ older n r s)
      (fun _ => le_rfl) hp hm q
  have hrest : ∀ p l₁ (x : MessageWrapper) l₂, s.pending p = l₁ ++ x :: l₂ →
      (l₁ ++ l₂).countP (MessageWrapper.olderThan n) ≤ older n p s := by
    intro p l₁ x l₂ hl₀
    unfold older
    rw [hl₀]
    exact (List.Sublist.append_left (List.sublist_cons_self x l₂) l₁).countP_le
  have hnew : ∀ (m : List MessageWrapper) (x : MessageWrapper), x.self = s.next →
      (m ++ [x]).countP (MessageWrapper.olderThan n) =
        m.countP (MessageWrapper.olderThan n) := by
    intro m x hx
    have hyoung : ¬ x.olderThan n = true := by
      rw [olderThan_iff]
      omega
    rw [List.countP_append, List.countP_singleton, if_neg hyoung, Nat.add_zero]
  cases h with
  | quiet hp hn' es hq hl =>
    unfold older
    rw [hp]
  | enqueue p x he hself hq hp hn' hl =>
    refine hupdate p _ hp ?_
    rw [hnew _ x hself]
    exact le_rfl
  | replace p l₁ x l₂ x' hl₀ hself hid hm hq hd hp hn' hl =>
    refine hupdate p _ hp ?_
    rw [hnew _ x' hself]
    exact hrest p l₁ x l₂ hl₀
  | delete p l₁ x l₂ why hl₀ hd hp hn' hl hr => exact hupdate p _ hp (hrest p l₁ x l₂ hl₀)
  | take p l₁ x l₂ fit hl₀ hno hone hp hn' hl => exact hupdate p _ hp (hrest p l₁ x l₂ hl₀)
  | fire p l₁ x l₂ x' fit hl₀ hno hone hx' hp hn' hl =>
    refine hupdate p _ hp ?_
    unfold older
    rw [hl₀, List.countP_append, List.countP_append, List.countP_cons, List.countP_cons,
      fixed_olderThan hx'.1]

/-- what is old stays old, and there is no more of it -/
theorem run_older (h0 : s.map 0 = none) (hr : Runs.AnyRun step s s') (hn : n ≤ s.next) :
    n ≤ s'.next ∧ older n q s' ≤ older n q s := by
  refine (keep_any (P := fun u => n ≤ u.next ∧ older n q u ≤ older n q s) hr h0 ?_ ⟨hn, le_rfl⟩).1
  intro u v hu hm
  exact ⟨hu.1.trans hm.entry.next_le, (hm.entry.older_le hu.1).trans hu.2⟩

/-! ## a scan -/

theorem older_idle {k m : Int64} (h : scan s.now m (s.pending q) = .idle k) : older n q s = 0 := by
  unfold older
  rw [List.countP_eq_zero]
  intro x hx hold
  have himm := not_immediate (scan_idle h x hx)
  rw [(olderThan_iff.mp hold).1] at himm
  cases himm

theorem lull_found {l₁ l₂ : List MessageWrapper} {it : MessageWrapper} (h : s.lull q = true)
    (hl : s.pending q = l₁ ++ it :: l₂) (hno : ∀ x ∈ l₁, x.immediate = false)
    (hdue : due s.now it = true) : it.immediate = true := by
  by_contra himm
  have himm : it.immediate = false := Bool.not_eq_true _ ▸ himm
  unfold State.lull at h
  rw [hl, List.takeWhile_append_of_pos (fun x hx => by rw [hno x hx]; rfl),
    List.takeWhile_cons_of_pos (by rw [himm]; rfl)] at h
  have hall := List.all_eq_true.mp h it (List.mem_append_right _ List.mem_cons_self)
  rw [hdue] at hall
  cases hall

/-- **A lull takes an old message**, where there is one. -/
theorem Head.lull_older {brk : Bool} (h : Head q brk s s') (hE : Entries s)
    (hb : s.breaks q brk = false) (hlull : s.lull q = true) :
    older n q s' ≤ older n q s - 1 := by
  cases h with
  | back hb' hs =>
    rw [hb] at hb'
    cases hb'
  | idle k hb' hs hp hl =>
    have hzero : older n q s = 0 := older_idle hs
    unfold older at hzero ⊢
    rw [hp, hzero]
  | pick x d lst hb' hs hp hl =>
    obtain ⟨l₁, it, l₂, hl₀, hfront, hdue, -, -, hlst⟩ := scan_found hs
    have hno : ∀ y ∈ l₁, y.immediate = false := fun y hy => not_immediate (hfront y hy)
    have himm := lull_found hlull hl₀ hno hdue
    rw [immediate_oneShot himm, if_pos rfl] at hlst
    have hfresh : l₁.countP (MessageWrapper.olderThan n) = 0 := by
      rw [List.countP_eq_zero]
      intro y hy hold
      have himm' := hno y hy
      rw [(olderThan_iff.mp hold).1] at himm'
      cases himm'
    -- behind an entry that is not old there are no old ones
    have hbehind : ¬ it.self < n → l₂.countP (MessageWrapper.olderThan n) = 0 := by
      intro hit
      have hasc := hE.ascending q
      rw [hl₀, List.map_append, List.map_cons, List.pairwise_append] at hasc
      rw [List.countP_eq_zero]
      intro y hy hold
      have hlt := (List.pairwise_cons.mp hasc.2.1).1 _ (List.mem_map_of_mem hy)
      have := (olderThan_iff.mp hold).2
      omega
    unfold older
    rw [hp, Function.update_self, hlst, hl₀, List.countP_append, List.countP_append,
      List.countP_cons, hfresh]
    by_cases hit : it.self < n
    · rw [if_pos (olderThan_iff.mpr ⟨himm, hit⟩)]
      omega
    · rw [hbehind hit]
      omega

theorem step_lull (h : Reachable s) (hs : step s a = some s') (hscan : scans q s a = true)
    (hlull : s.lull q = true) : older n q s' ≤ older n q s - 1 := by
  rcases step_scans (E := fun _ => True) h.map_zero hs (fun _ _ _ => trivial) with ⟨hno, -⟩ | ⟨t, brk, rfl, hhead⟩
  · cases a with
    | loop t brk => exact absurd rfl (hno t brk)
    | _ => cases hscan
  · obtain ⟨ht, hb⟩ := Bool.and_eq_true_iff.mp hscan
    cases eq_of_beq ht
    exact hhead.lull_older h.entries ((Bool.not_eq_true' _).mp hb) hlull

theorem step_idle (h : Reachable s) (hs : step s a = some s') (hl : s'.log = es ++ s.log)
    (hidle : .idle q ∈ es) : older n q s' = 0 := by
  rcases step_loud (E := fun _ => True) h.map_zero hs (fun _ _ _ => trivial) hl hidle rfl with ⟨t, hC, -⟩ | ⟨t, k, he, hsc, hp⟩ |
    ⟨t, w, d, lst, he, -⟩
  · cases hC
  · cases he
    unfold older
    rw [hp]
    exact older_idle hsc
  · cases he

/-! ## runs -/

/-- **Each lull of a run takes an old message**, where there is one. -/
theorem older_lulls (h : Reachable s) (hn : n ≤ s.next) (hl : Runs.exec step s l = some s') :
    older n q s' ≤ older n q s - lulls q s l := by
  induction l generalizing s with
  | nil =>
    cases hl
    exact le_rfl
  | cons a l ih =>
    obtain ⟨t, ht, hl⟩ := Option.bind_eq_some_iff.mp hl
    obtain ⟨hnext, hle⟩ := run_older (q := q) h.map_zero (Runs.Run.one trivial ht) hn
    have hrest := ih (h.step ht) hnext hl
    have hlulls : lulls q s (a :: l) =
        (if scans q s a && s.lull q then 1 else 0) + lulls q t l := by
      rw [lulls, ht]
      rfl
    rw [hlulls]
    split
    · rename_i hscan
      obtain ⟨hscan, hlull⟩ := Bool.and_eq_true_iff.mp hscan
      have := step_lull (n := n) h ht hscan hlull
      omega
    · omega

/-- a move leaves an immediate message in the list or settles it -/
theorem Entry.settles (h : Entry D E s s') (hw : w ∈ s.pending q) (himm : w.immediate = true) :
    ∃ es, s'.log = es ++ s.log ∧ (w ∈ s'.pending q ∨ Settled w es) := by
  have hstays : ∀ p l₁ (x : MessageWrapper) l₂ (m : List MessageWrapper),
      s.pending p = l₁ ++ x :: l₂ → s'.pending = Function.update s.pending p m →
      (∀ y ∈ l₁ ++ l₂, y ∈ m) → w ≠ x → w ∈ s'.pending q := by
    intro p l₁ x l₂ m hl₀ hp hm hne
    rw [hp]
    by_cases hq : q = p
    · subst hq
      rw [Function.update_self]
      rw [hl₀] at hw
      refine hm w ?_
      rcases List.mem_append.mp hw with hw | hw
      · exact List.mem_append_left _ hw
      · exact List.mem_append_right _ ((List.mem_cons.mp hw).resolve_left hne)
    · rw [Function.update_of_ne hq]
      exact hw
  cases h with
  | quiet hp hn es hq hl =>
    refine ⟨es, hl, Or.inl ?_⟩
    rw [hp]
    exact hw
  | enqueue p x he hself hq hp hn hl =>
    refine ⟨[.enqueue x, .draw x.postid.seq], hl, Or.inl ?_⟩
    rw [hp]
    by_cases hqp : q = p
    · subst hqp
      rw [Function.update_self]
      exact List.mem_append_left _ hw
    · rw [Function.update_of_ne hqp]
      exact hw
  | replace p l₁ x l₂ x' hl₀ hself hid hm hq hd hp hn hl =>
    refine ⟨[.enqueue x', .remove x .replace], hl, ?_⟩
    by_cases hx : w = x
    · subst hx
      exact Or.inr (Or.inr ⟨.replace, List.mem_cons_of_mem _ List.mem_cons_self⟩)
    · exact Or.inl (hstays p l₁ x l₂ _ hl₀ hp (fun y hy => List.mem_append_left _ hy) hx)
  | delete p l₁ x l₂ why hl₀ hd hp hn hl hr =>
    refine ⟨[.remove x why], hl, ?_⟩
    by_cases hx : w = x
    · subst hx
      exact Or.inr (Or.inr ⟨why, List.mem_cons_self⟩)
    · exact Or.inl (hstays p l₁ x l₂ _ hl₀ hp (fun y hy => hy) hx)
  | take p l₁ x l₂ fit hl₀ hno hone hp hn hl =>
    refine ⟨[.pick x fit], hl, ?_⟩
    by_cases hx : w = x
    · subst hx
      exact Or.inr (Or.inl ⟨fit, List.mem_cons_self⟩)
    · exact Or.inl (hstays p l₁ x l₂ _ hl₀ hp (fun y hy => hy) hx)
  | fire p l₁ x l₂ x' fit hl₀ hno hone hx' hp hn hl =>
    refine ⟨[.pick x' fit], hl, Or.inl (hstays p l₁ x l₂ _ hl₀ hp ?_ ?_)⟩
    · intro y hy
      rcases List.mem_append.mp hy with hy | hy
      · exact List.mem_append_left _ hy
      · exact List.mem_append_right _ (List.mem_cons_of_mem _ hy)
    · rintro rfl
      rw [immediate_oneShot himm] at hone
      cases hone

theorem run_settles (h0 : s.map 0 = none) (hr : Runs.AnyRun step s s') (hw : w ∈ s.pending q)
    (himm : w.immediate = true) :
    ∃ es, s'.log = es ++ s.log ∧ (w ∈ s'.pending q ∨ Settled w es) := by
  refine (keep_any
    (P := fun u => ∃ es, u.log = es ++ s.log ∧ (w ∈ u.pending q ∨ Settled w es)) hr h0 ?_
    ⟨[], rfl, Or.inl hw⟩).1
  rintro u v ⟨es, hl, hu⟩ hm
  rcases hu with hu | hu
  · obtain ⟨es', hl', hv⟩ := hm.entry.settles hu himm
    refine ⟨es' ++ es, by rw [hl', hl, List.append_assoc], hv.imp_right fun hv => ?_⟩
    exact hv.mono fun _ he => List.mem_append_left _ he
  · obtain ⟨es', hl'⟩ := hm.entry.log
    refine ⟨es' ++ es, by rw [hl', hl, List.append_assoc], Or.inr ?_⟩
    exact hu.mono fun _ he => List.mem_append_right _ he

theorem run_log (h0 : s.map 0 = none) (hr : Runs.AnyRun step s s') :
    ∃ es, s'.log = es ++ s.log := by
  refine (keep_any (P := fun u => ∃ es, u.log = es ++ s.log) hr h0 ?_ ⟨[], rfl⟩).1
  rintro u v ⟨es, hl⟩ hm
  obtain ⟨es', hl'⟩ := hm.entry.log
  exact ⟨es' ++ es, by rw [hl', hl, List.append_assoc]⟩

theorem older_slept (h : Reachable s) (hn : n ≤ s.next) (hr : Runs.AnyRun step s s')
    (hl : s'.log = es ++ s.log) (hidle : .idle q ∈ es) : older n q s' = 0 := by
  have hnot : ¬ ∃ es, s.log = es ++ s.log ∧ .idle q ∈ es := by
    rintro ⟨es, hl, hmem⟩
    rw [← grown (List.nil_append s.log).symm hl] at hmem
    cases hmem
  obtain ⟨t, a, t', hst, -, hs, ht's, hb, ha⟩ := hr.split
    (P := fun u => ∃ es, u.log = es ++ s.log ∧ .idle q ∈ es) hnot ⟨es, hl, hidle⟩
  have ht : Reachable t := Relation.ReflTransGen.trans h hst
  obtain ⟨es₁, hl₁⟩ := run_log h.map_zero hst
  obtain ⟨es₂, hl₂⟩ := run_log ht.map_zero (Runs.Run.one trivial hs)
  obtain ⟨es₃, hl₃, hmem⟩ := ha
  rw [hl₁, ← List.append_assoc] at hl₂
  rw [grown hl₃ hl₂] at hmem
  rcases List.mem_append.mp hmem with hmem | hmem
  · rw [List.append_assoc, ← hl₁] at hl₂
    have hzero : older n q t' = 0 := step_idle ht hs hl₂ hmem
    have hnext := (run_older (q := q) h.map_zero (hst.tail ⟨a, trivial, hs⟩) hn).1
    have hle := (run_older (q := q) (ht.step hs).map_zero ht's hnext).2
    omega
  · exact absurd ⟨es₁, hl₁, hmem⟩ hb

/-- **A periodic message starves the others only while timed messages in front of them are due.**
Where the loop of the queue has gone to sleep, or has had as many lulls as there were immediate
messages pending at the start, all of these are dispatched or deleted. -/
theorem no_starvation (h : Reachable s) (hl : Runs.exec step s l = some s')
    (hes : s'.log = es ++ s.log)
    (hlulls : .idle q ∈ es ∨ (s.pending q).countP (·.immediate) ≤ lulls q s l) :
    ∀ w ∈ s.pending q, w.immediate = true → Settled w es := by
  have hr : Runs.AnyRun step s s' := Runs.Run.of_exec hl
  have hzero : older s.next q s' = 0 := by
    rcases hlulls with hidle | hlulls
    · exact older_slept h le_rfl hr hes hidle
    · have hall : older s.next q s ≤ (s.pending q).countP (·.immediate) :=
        List.countP_mono_left fun w _ hw => (olderThan_iff.mp hw).1
      have := older_lulls (q := q) h le_rfl hl
      omega
  intro w hw himm
  obtain ⟨es', hes', hw'⟩ := run_settles h.map_zero hr hw himm
  rw [grown hes hes']
  refine hw'.resolve_left fun hmem => ?_
  have hold := List.countP_eq_zero.mp hzero w hmem
  exact hold (olderThan_iff.mpr ⟨himm, h.entries.below q w hw⟩)

/-- a message with the period `period` and an immediate one behind it, and the periodic one runs -/
def firstPeriod (period : Int64) : List Act :=
  [.call 7 (.createMessageQueueInfo 7),
    .call 7 (.postMessage ⟨7, 9⟩ ⟨1, none⟩ ⟨.kPeriod, 0, period⟩),
    .call 7 (.postMessage ⟨7, 9⟩ ⟨2, none⟩ ⟨.kImmediately, 0, 0⟩),
    .run 7 false, .enter 7, .loop 7 false]

def beside (period : Int64) : MessageWrapper × MessageWrapper :=
  (⟨1, ⟨⟨7, 9⟩, 2⟩, ⟨1, none⟩, ⟨.kPeriod, 0, period⟩, .kPeriod, 0⟩,
    ⟨2, ⟨⟨7, 9⟩, 3⟩, ⟨2, none⟩, ⟨.kImmediately, 0, 0⟩, .kImmediately, 0⟩)

/-- a second later the periodic message runs again, and the other one has run in between -/
theorem no_starvation_second : ∃ s s' es, Runs.exec step init (firstPeriod 1000) = some s ∧
    Runs.exec step s [.finish 7, .loop 7 false, .finish 7, .tick 1000, .loop 7 false] = some s' ∧
    s'.log = es ++ s.log ∧ (beside 1000).2 ∈ s.pending 7 ∧ Settled (beside 1000).2 es := by
  have hruns : ∃ s s' es, Runs.exec step init (firstPeriod 1000) = some s ∧
      Runs.exec step s [.finish 7, .loop 7 false, .finish 7, .tick 1000, .loop 7 false] = some s' ∧
      s'.log = es ++ s.log ∧ (beside 1000).2 ∈ s.pending 7 ∧
      (s.pending 7).countP (·.immediate) ≤
        lulls 7 s [.finish 7, .loop 7 false, .finish 7, .tick 1000, .loop 7 false] :=
    ⟨_, _, [_, _, _], rfl, rfl, rfl, by decide, by decide⟩
  obtain ⟨s, s', es, hs, hl, hes, hmem, hle⟩ := hruns
  exact ⟨s, s', es, hs, hl, hes, hmem,
    no_starvation (Runs.Run.of_exec hs) hl hes (Or.inr hle) _ hmem rfl⟩

/-- without a pause between its runs the periodic message is the only one that runs -/
theorem starves : ¬ ∀ s s' p p' fit fit' log es w, Reachable s → s.log = .pick p fit :: log →
    p.timing.type = .kPeriod → Runs.AnyRun step s s' → s'.log = .pick p' fit' :: (es ++ s.log) →
    p.Same p' → w ∈ s.pending p.postid.reg.queue → w.immediate = true → Settled w es := by
  intro hall
  have hruns : ∃ s s' log, Runs.exec step init (firstPeriod 0) = some s ∧
      s.log = .pick (beside 0).1 [] :: log ∧
      Runs.exec step s [.finish 7, .loop 7 false] = some s' ∧
      s'.log = .pick (beside 0).1 [] :: ([] ++ s.log) ∧ (beside 0).2 ∈ s.pending 7 :=
    ⟨_, _, _, rfl, rfl, rfl, rfl, by decide⟩
  obtain ⟨s, s', log, hs, hlog, hl, hlog', hmem⟩ := hruns
  rcases hall s s' _ _ [] [] log [] (beside 0).2 (Runs.Run.of_exec hs) hlog rfl
    (Runs.Run.of_exec hl) hlog' (.refl _) hmem rfl with ⟨fit, h⟩ | ⟨why, h⟩
  · cases h
  · cases h

end MessageQueue
