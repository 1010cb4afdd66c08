import LearnDiary.MessageQueue.Balance
import LearnDiary.MessageQueue.Scans

/-!
# Message queues: one fate for each message

A one-shot message that has come in is in the list, or one loop runs it, or it was dispatched, or it
was removed; each of these excludes the others.  A dispatch calls the handlers that were installed
for the message when the loop picked it, one after the other and each once.

* `Served`      what the loops have done of the dispatches they have begun;
* `one_fate`    the fates, the handlers of a dispatch, and what a cancelled id is safe from.
-/

namespace MessageQueue
open State History

/-! ## the dispatches of a wrapper -/

def Event.picks (w : MessageWrapper) : Event → Bool
  | .pick x _ => x == w
  | _ => false

def Event.removes (w : MessageWrapper) : Event → Bool
  | .remove x _ => x == w
  | _ => false

def Event.invoked (w : MessageWrapper) : Event → Option HandlerWrapper
  | .invoke x h => if x = w then some h else none
  | _ => none

def State.calls (s : State) (w : MessageWrapper) : List HandlerWrapper :=
  (s.log.filterMap (Event.invoked w)).reverse

def Frame.runs (w : MessageWrapper) (f : Frame) : Bool :=
  match f.pc with
  | .dispatch x _ _ _ => x == w
  | _ => false

/-- the handlers the loop has yet to call with the wrapper -/
def Frame.left (w : MessageWrapper) (f : Frame) : List HandlerWrapper :=
  match f.pc with
  | .dispatch x _ _ l => if x = w then l else []
  | _ => []

/-- where a one-shot message is -/
inductive Fate (s : State) (w : MessageWrapper) : Prop
  | pending (hp : (s.pending w.postid.reg.queue).count w = 1)
      (hk : s.log.countP (Event.picks w) = 0) (hr : s.log.countP (Event.removes w) = 0)
      (hc : s.calls w = [])
  | running (fit : List HandlerWrapper) (f : Frame)
      (hp : (s.pending w.postid.reg.queue).count w = 0)
      (hk : s.log.countP (Event.picks w) = 1) (hr : s.log.countP (Event.removes w) = 0)
      (hfit : .pick w fit ∈ s.log) (hf : f ∈ s.frames w.postid.reg.queue) (hw : f.runs w = true)
      (hc : s.calls w ++ f.left w = fit)
  | dispatched (fit : List HandlerWrapper) (hp : (s.pending w.postid.reg.queue).count w = 0)
      (hk : s.log.countP (Event.picks w) = 1) (hr : s.log.countP (Event.removes w) = 0)
      (hfit : .pick w fit ∈ s.log) (hd : .destroy w ∈ s.log) (hc : s.calls w = fit)
  | removed (hp : (s.pending w.postid.reg.queue).count w = 0)
      (hk : s.log.countP (Event.picks w) = 0) (hr : s.log.countP (Event.removes w) = 1)
      (hc : s.calls w = [])

variable {D : State → MessageWrapper → Why → Prop} {E : Guard → Prop} {s s' : State} {w : MessageWrapper}

/-- what is left of the dispatches of a wrapper -/
def State.lefts (s : State) (w : MessageWrapper) : List HandlerWrapper :=
  (s.frames w.postid.reg.queue).flatMap (Frame.left w)

structure Served (s : State) : Prop where
  home : ∀ t, ∀ f ∈ s.frames t, ∀ w d r l, f.pc = .dispatch w d r l →
    w.postid.reg.queue = t ∧ d = w.oneShot
  held : ∀ w, w.oneShot = true → (s.frames w.postid.reg.queue).countP (Frame.runs w) +
    s.log.count (.destroy w) = s.log.countP (Event.picks w)
  unpicked : ∀ w, w.oneShot = true → s.log.countP (Event.picks w) = 0 → s.calls w ++ s.lefts w = []
  fit : ∀ w fit, w.oneShot = true → .pick w fit ∈ s.log → s.calls w ++ s.lefts w = fit

theorem Served.init : Served init where
  home _ _ h := by cases h
  held _ _ := rfl
  unpicked _ _ _ := rfl
  fit _ _ _ h := by cases h

/-- events that are no part of a dispatch -/
def Event.idleOf (w : MessageWrapper) (e : Event) : Prop :=
  e.picks w = false ∧ e.invoked w = none ∧ e ≠ .destroy w

theorem outer_idleOf {e : Event} (h : e.outer = true) : e.idleOf w := by
  cases e with
  | pick | idle | invoke | destroy => cases h
  | _ => exact ⟨rfl, rfl, fun h => by cases h⟩

theorem calls_append (es : List Event) (hl : s'.log = es ++ s.log) :
    s'.calls w = s.calls w ++ (es.filterMap (Event.invoked w)).reverse := by
  unfold State.calls
  rw [hl, List.filterMap_append, List.reverse_append]

section
variable {es : List Event} (hl : s'.log = es ++ s.log) (hes : ∀ e ∈ es, e.idleOf w)
include hl hes

theorem picks_idle : s'.log.countP (Event.picks w) = s.log.countP (Event.picks w) := by
  rw [hl]
  exact count_quiet (fun e he => (hes e he).1)

theorem destroys_idle : s'.log.count (.destroy w) = s.log.count (.destroy w) := by
  rw [hl, List.count_append, List.count_eq_zero_of_not_mem, Nat.zero_add]
  exact fun hd => (hes _ hd).2.2 rfl

theorem calls_idle : s'.calls w = s.calls w := by
  have hnil : es.filterMap (Event.invoked w) = [] :=
    List.filterMap_eq_nil_iff.mpr (fun e he => (hes e he).2.1)
  rw [calls_append es hl, hnil, List.reverse_nil, List.append_nil]

theorem pick_idle {fit : List HandlerWrapper} (h : .pick w fit ∈ s'.log) : .pick w fit ∈ s.log := by
  rw [hl] at h
  rcases List.mem_append.mp h with h | h
  · have := (hes _ h).1
    rw [Event.picks, beq_self_eq_true] at this
    cases this
  · exact h

end

theorem invoked_self (x : HandlerWrapper) : (Event.invoke w x).invoked w = some x := if_pos rfl

theorem invoked_ne {y : MessageWrapper} (h : y ≠ w) (x : HandlerWrapper) :
    (Event.invoke y x).invoked w = none := if_neg h

theorem PcMove.serves {f : Frame} {pc : Pc} {es : List Event} (h : PcMove f.pc pc es)
    (hkind : ∀ x d r l, f.pc = .dispatch x d r l → d = x.oneShot) (hone : w.oneShot = true) :
    let f' : Frame := { f with pc := pc }
    (if f'.runs w then 1 else 0) + es.count (.destroy w) = (if f.runs w then 1 else 0) ∧
      (es.filterMap (Event.invoked w)).reverse ++ f'.left w = f.left w ∧
      ∀ e ∈ es, e.picks w = false := by
  unfold Frame.runs Frame.left
  dsimp only
  generalize f.pc = old at h hkind
  cases h with
  | idle n q =>
    refine ⟨rfl, rfl, fun e he => ?_⟩
    rw [List.mem_singleton.mp he]
    rfl
  | wake n => exact ⟨rfl, rfl, fun e he => by cases he⟩
  | invoke x d y l =>
    refine ⟨rfl, ?_, fun e he => ?_⟩
    · show _ ++ (if x = w then l else []) = if x = w then y :: l else []
      by_cases hx : x = w
      · subst hx
        rw [List.filterMap_cons_some (invoked_self y), if_pos rfl, if_pos rfl]
        rfl
      · rw [List.filterMap_cons_none (invoked_ne hx y), if_neg hx, if_neg hx]
        rfl
    · rw [List.mem_singleton.mp he]
      rfl
  | handlerReturn x d y l => exact ⟨rfl, rfl, fun e he => by cases he⟩
  | finish x =>
    refine ⟨?_, ?_, fun e he => ?_⟩
    · by_cases hx : x = w
      · rw [if_neg Bool.false_ne_true, if_pos (beq_iff_eq.mpr hx), hx, List.count_singleton_self]
      · rw [if_neg Bool.false_ne_true, if_neg (by rw [beq_iff_eq]; exact hx)]
        rw [List.count_eq_zero_of_not_mem]
        intro hd
        cases List.mem_singleton.mp hd
        exact hx rfl
    · show [] = if x = w then [] else []
      rw [ite_self]
    · rw [List.mem_singleton.mp he]
      rfl
  | finishPeriod x =>
    have hx : x ≠ w := by
      rintro rfl
      rw [← hkind x false none [] rfl] at hone
      cases hone
    refine ⟨?_, ?_, fun e he => by cases he⟩
    · rw [if_neg Bool.false_ne_true, if_neg (by rw [beq_iff_eq]; exact hx)]
      rfl
    · show [] = if x = w then [] else []
      rw [ite_self]

theorem Served.settle (h : Served s) {t : Thread} {l : List Frame} (es : List Event)
    (hf : s'.frames = Function.update s.frames t l) (hl : s'.log = es ++ s.log)
    (hhome : ∀ f ∈ l, ∀ w d r x, f.pc = .dispatch w d r x → w.postid.reg.queue = t ∧ d = w.oneShot)
    (hoff : ∀ w, w.postid.reg.queue ≠ t → ∀ e ∈ es, e.idleOf w)
    (hon : ∀ w, w.oneShot = true → w.postid.reg.queue = t →
      l.countP (Frame.runs w) + es.count (.destroy w) = (s.frames t).countP (Frame.runs w) ∧
      (es.filterMap (Event.invoked w)).reverse ++ l.flatMap (Frame.left w) =
        (s.frames t).flatMap (Frame.left w) ∧
      ∀ e ∈ es, e.picks w = false) : Served s' := by
  have hcalls : ∀ w, w.oneShot = true → s'.calls w ++ s'.lefts w = s.calls w ++ s.lefts w := by
    intro w hone
    unfold State.lefts
    rw [hf]
    by_cases e : w.postid.reg.queue = t
    · rw [e, Function.update_self, calls_append es hl, List.append_assoc, (hon w hone e).2.1]
    · rw [Function.update_of_ne e, calls_idle hl (hoff w e)]
  have hpicks : ∀ w, w.oneShot = true →
      s'.log.countP (Event.picks w) = s.log.countP (Event.picks w) := by
    intro w hone
    by_cases e : w.postid.reg.queue = t
    · rw [hl]
      exact count_quiet (hon w hone e).2.2
    · exact picks_idle hl (hoff w e)
  refine ⟨?_, ?_, ?_, ?_⟩
  · intro u f hfu
    rw [hf] at hfu
    replace hfu := Elements.mem_update hfu
    rcases hfu with hfu | ⟨rfl, hfu⟩
    · exact h.home u f hfu
    · exact hhome f hfu
  · intro w hone
    rw [hpicks w hone, ← h.held w hone, hf]
    by_cases e : w.postid.reg.queue = t
    · have hcount := (hon w hone e).1
      rw [e, Function.update_self, hl, List.count_append]
      omega
    · rw [Function.update_of_ne e, destroys_idle hl (hoff w e)]
  · intro w hone hk
    rw [hcalls w hone]
    exact h.unpicked w hone (by rw [← hpicks w hone]; exact hk)
  · intro w fit hone hk
    rw [hcalls w hone]
    apply h.fit w fit hone
    rw [hl] at hk
    rcases List.mem_append.mp hk with hk | hk
    · by_cases e : w.postid.reg.queue = t
      · have := (hon w hone e).2.2 _ hk
        rw [Event.picks, beq_self_eq_true] at this
        cases this
      · have := (hoff w e _ hk).1
        rw [Event.picks, beq_self_eq_true] at this
        cases this
    · exact hk

theorem head_serves {f : Frame} (h : f.pc = .head) (w : MessageWrapper) :
    f.runs w = false ∧ f.left w = [] := by
  unfold Frame.runs Frame.left
  rw [h]
  exact ⟨rfl, rfl⟩

/-- **What the loops have served is kept track of**, when no message is picked a second time. -/
theorem Served.step (h : Served s) (hent : Entries s) (hs : Shift s s')
    (hfresh : ∀ t, ∀ w ∈ s.pending t, w.oneShot = true → s.log.countP (Event.picks w) = 0) :
    Served s' := by
  -- loops that stay, with events that are no part of a dispatch
  have hstay : s'.frames = s.frames → ∀ es, (∀ e ∈ es, e.outer = true) → s'.log = es ++ s.log →
      Served s' := by
    intro hf es he hl
    have hes : ∀ w, ∀ e ∈ es, e.idleOf w := fun w e hm => outer_idleOf (he e hm)
    have hlefts : ∀ w, s'.lefts w = s.lefts w := by
      intro w
      unfold State.lefts
      rw [hf]
    refine ⟨?_, ?_, ?_, ?_⟩
    · rw [hf]
      exact h.home
    · intro w hone
      rw [hf, destroys_idle hl (hes w), picks_idle hl (hes w)]
      exact h.held w hone
    · intro w hone hk
      rw [picks_idle hl (hes w)] at hk
      rw [calls_idle hl (hes w), hlefts]
      exact h.unpicked w hone hk
    · intro w fit hone hk
      rw [calls_idle hl (hes w), hlefts]
      exact h.fit w fit hone (pick_idle hl (hes w) hk)
  cases hs with
  | still hf hi hn es he hl => exact hstay hf es he hl
  | clear t f rest front info hf₀ hpc hi₀ hf hi hn hl =>
    exact hstay hf [] (fun e he => by cases he) hl
  | enter t b hk hf hi hn hl =>
    refine h.settle [] hf hl ?_ (fun _ _ e he => by cases he) ?_
    · intro f hf w d r x hpc
      rcases List.mem_cons.mp hf with rfl | hf
      · cases hpc
      · exact h.home t f hf w d r x hpc
    · intro w _ _
      refine ⟨?_, rfl, fun e he => by cases he⟩
      rw [List.countP_cons_of_neg (by exact Bool.false_ne_true)]
      rfl
  | pop t f rest front info hf₀ hpc hi₀ hf hi hn hl =>
    refine h.settle [] hf hl ?_ (fun _ _ e he => by cases he) ?_
    · intro g hg
      exact h.home t g (by rw [hf₀]; exact List.mem_cons_of_mem _ hg)
    · intro w _ _
      obtain ⟨hruns, hleft⟩ := head_serves hpc w
      rw [hf₀, List.countP_cons_of_neg (by rw [hruns]; exact Bool.false_ne_true),
        List.flatMap_cons, hleft]
      exact ⟨rfl, rfl, fun e he => by cases he⟩
  | turn t f rest pc es hf₀ hpc hf hi hn hl =>
    have htop : ∀ w d r x, f.pc = .dispatch w d r x → w.postid.reg.queue = t ∧ d = w.oneShot :=
      h.home t f (by rw [hf₀]; exact List.mem_cons_self)
    refine h.settle _ hf hl ?_ ?_ ?_
    · intro g hg w d r x hg'
      rcases List.mem_cons.mp hg with rfl | hg
      · dsimp only at hg'
        generalize f.pc = old at hpc htop
        cases hpc with
        | idle | wake | finish | finishPeriod => cases hg'
        | invoke | handlerReturn =>
          cases hg'
          exact htop _ _ _ _ rfl
      · exact h.home t g (by rw [hf₀]; exact List.mem_cons_of_mem _ hg) w d r x hg'
    · intro w hw e he
      generalize f.pc = old at hpc htop
      cases hpc with
      | wake | handlerReturn | finishPeriod => cases he
      | idle =>
        rw [List.mem_singleton.mp he]
        exact ⟨rfl, rfl, fun h => by cases h⟩
      | invoke x d y l =>
        rw [List.mem_singleton.mp he]
        refine ⟨rfl, invoked_ne ?_ y, fun h => by cases h⟩
        rintro rfl
        exact hw (htop _ _ _ _ rfl).1
      | finish x =>
        rw [List.mem_singleton.mp he]
        refine ⟨rfl, rfl, fun h => ?_⟩
        cases h
        exact hw (htop _ _ _ _ rfl).1
    · intro w hone _
      obtain ⟨h1, h2, h3⟩ := hpc.serves (fun x d r l hx => (htop x d r l hx).2) hone
      refine ⟨?_, ?_, h3⟩
      · rw [hf₀, List.countP_cons, List.countP_cons]
        omega
      · rw [hf₀, List.flatMap_cons, List.flatMap_cons, ← List.append_assoc, h2]
  | pick t f rest front info x d fit hf₀ hpc hi₀ hfit hd hx hf hi hn hl =>
    obtain ⟨it, hit, hsame⟩ := hx
    have hxt : x.postid.reg.queue = t := by rw [← fixed_postid hsame.1, hent.home t it hit]
    have hcalls : ∀ w, s'.calls w = s.calls w := by
      intro w
      rw [calls_append [.pick x fit] hl]
      exact List.append_nil _
    have hother : ∀ w, w ≠ x → s'.lefts w = s.lefts w ∧
        s'.log.countP (Event.picks w) = s.log.countP (Event.picks w) ∧
        (s'.frames w.postid.reg.queue).countP (Frame.runs w) =
          (s.frames w.postid.reg.queue).countP (Frame.runs w) := by
      intro w hw
      obtain ⟨hruns, hleft⟩ := head_serves hpc w
      have hne : ¬ (x == w) = true := by
        rw [beq_iff_eq]
        exact Ne.symm hw
      have hl' : s'.log.countP (Event.picks w) = s.log.countP (Event.picks w) := by
        rw [hl]
        exact List.countP_cons_of_neg hne
      unfold State.lefts
      rw [hf]
      by_cases e : w.postid.reg.queue = t
      · rw [e, Function.update_self, hf₀, List.flatMap_cons, List.flatMap_cons, hleft,
          List.countP_cons_of_neg (by exact hne),
          List.countP_cons_of_neg (by rw [hruns]; exact Bool.false_ne_true)]
        refine ⟨?_, hl', rfl⟩
        show (if x = w then fit else []) ++ _ = _
        rw [if_neg (Ne.symm hw)]
      · rw [Function.update_of_ne e]
        exact ⟨rfl, hl', rfl⟩
    refine ⟨?_, ?_, ?_, ?_⟩
    · intro u g hg w d' r y hg'
      rw [hf] at hg
      replace hg := Elements.mem_update hg
      rcases hg with hg | ⟨rfl, hg⟩
      · exact h.home u g hg w d' r y hg'
      · rcases List.mem_cons.mp hg with rfl | hg
        · cases hg'
          exact ⟨hxt, hd⟩
        · exact h.home u g (by rw [hf₀]; exact List.mem_cons_of_mem _ hg) w d' r y hg'
    · intro w hone
      have hdestroy : s'.log.count (.destroy w) = s.log.count (.destroy w) := by
        rw [hl, List.count_cons_of_ne (fun e => by cases e)]
      by_cases hw : w = x
      · subst hw
        have hheld := h.held w hone
        rw [hxt, hf₀, List.countP_cons_of_neg (by
          rw [(head_serves hpc w).1]; exact Bool.false_ne_true)] at hheld
        rw [hdestroy, hxt, hf, Function.update_self, hl, List.countP_cons_of_pos (by
          exact beq_self_eq_true w), List.countP_cons_of_pos (by exact beq_self_eq_true w)]
        omega
      · rw [hdestroy, (hother w hw).2.1, (hother w hw).2.2]
        exact h.held w hone
    · intro w hone hk
      have hw : w ≠ x := by
        rintro rfl
        rw [hl, List.countP_cons_of_pos (by exact beq_self_eq_true w)] at hk
        cases hk
      rw [hcalls, (hother w hw).1]
      exact h.unpicked w hone (by rw [← (hother w hw).2.1]; exact hk)
    · intro w fit' hone hk
      rw [hl] at hk
      by_cases hw : w = x
      · subst hw
        have hitw : it = w := hsame.2 (by rw [fixed_oneShot hsame.1]; exact hone)
        have hnone := hfresh t it hit (by rw [hitw]; exact hone)
        rw [hitw] at hnone
        -- nothing was called or left before
        obtain ⟨hc, hleft⟩ := List.append_eq_nil_iff.mp (h.unpicked w hone hnone)
        unfold State.lefts at hleft
        rw [hxt, hf₀, List.flatMap_cons] at hleft
        have hrest := (List.append_eq_nil_iff.mp hleft).2
        rcases List.mem_cons.mp hk with hk | hk
        · cases hk
          rw [hcalls, hc, List.nil_append]
          unfold State.lefts
          rw [hxt, hf, Function.update_self, List.flatMap_cons, hrest, List.append_nil]
          exact if_pos rfl
        · exact absurd (List.countP_eq_zero.mp hnone _ hk) (fun hn => hn (beq_self_eq_true w))
      · rcases List.mem_cons.mp hk with hk | hk
        · cases hk
          exact absurd rfl hw
        · rw [hcalls, (hother w hw).1]
          exact h.fit w fit' hone hk

/-! ## the account of a run -/

structure Account (s : State) : Prop where
  ordered : Fifo s
  balanced : ∀ w, Balanced (Key.wrapper w) s
  served : Served s

theorem picks_ends (hone : w.oneShot = true) {e : Event} (h : e.picks w = true) :
    e.ends (Key.wrapper w) = true := by
  cases e with
  | pick x fit =>
    have hx : x = w := eq_of_beq h
    show (x.oneShot && x.fixed == w.fixed) = true
    rw [hx, hone, beq_self_eq_true]
    rfl
  | _ => cases h

theorem Account.unended (h : Account s) {t : Thread} (hw : w ∈ s.pending t) :
    ∀ e ∈ s.log, e.ends (Key.wrapper w) = false := by
  have hlisted : 0 < s.listed (Key.wrapper w) := by
    apply List.countP_pos_iff.mpr
    refine ⟨w, ?_, beq_self_eq_true w.fixed⟩
    show w ∈ s.pending w.postid.reg.queue
    rw [h.ordered.entries.home t w hw]
    exact hw
  have hbal := h.balanced w
  have hone := h.ordered.brings_wrapper w
  unfold Balanced at hbal
  have hnone : s.log.countP (Event.ends (Key.wrapper w)) = 0 := by omega
  exact fun e he => Bool.eq_false_iff.mpr (List.countP_eq_zero.mp hnone e he)

theorem Account.fresh (h : Account s) {t : Thread} (hw : w ∈ s.pending t)
    (hone : w.oneShot = true) : s.log.countP (Event.picks w) = 0 := by
  apply List.countP_eq_zero.mpr
  intro e he hpick
  have hends := h.unended hw e he
  rw [picks_ends hone hpick] at hends
  cases hends

theorem Account.move (h : Account s) (hm : Move D E s s') : Account s' :=
  ⟨h.ordered.step hm.entry, fun w => (h.balanced w).step h.ordered.entries hm.entry,
    h.served.step h.ordered.entries hm.shift (fun _ _ hw hone => h.fresh hw hone)⟩

theorem Reachable.account (h : Reachable s) : Account s :=
  h.keep (fun _ _ hu hm => hu.move hm) ⟨Fifo.init, fun _ => Balanced.init, Served.init⟩

/-- a one-shot message is known by what never changes of it -/
theorem alike {x : MessageWrapper} (h : Entries s) (hw : .enqueue w ∈ s.log)
    (hone : w.oneShot = true) (hx : ∃ w₀, .enqueue w₀ ∈ s.log ∧ w₀.Same x)
    (hf : x.fixed = w.fixed) : x = w := by
  obtain ⟨w₀, h0, hsame⟩ := hx
  have hself : w₀.self = w.self := by rw [fixed_self hsame.1, fixed_self hf]
  have heq : w₀ = w := h.once w₀ w h0 hw hself
  rw [← hsame.2 (by rw [heq]; exact hone), heq]

theorem count_or {p q r : Event → Bool} {log : List Event}
    (h : ∀ e ∈ log, r e = (p e || q e) ∧ (p e && q e) = false) :
    log.countP r = log.countP p + log.countP q := by
  induction log with
  | nil => rfl
  | cons e log ih =>
    obtain ⟨h1, h2⟩ := h e List.mem_cons_self
    rw [List.countP_cons, List.countP_cons, List.countP_cons,
      ih (fun x hx => h x (List.mem_cons_of_mem _ hx)), h1]
    cases hp : p e with
    | false =>
      rw [Bool.false_or, if_neg Bool.false_ne_true]
      omega
    | true =>
      rw [hp, Bool.true_and] at h2
      rw [h2, Bool.true_or, if_neg Bool.false_ne_true]
      omega

/-- **The balance of a one-shot message**: it is in the list, was picked, or was removed. -/
theorem Account.balance (h : Account s) (hw : .enqueue w ∈ s.log) (hone : w.oneShot = true) :
    (s.pending w.postid.reg.queue).count w + s.log.countP (Event.picks w) +
      s.log.countP (Event.removes w) = 1 := by
  have hent := h.ordered.entries
  have hbrings : s.log.countP (Event.brings (Key.wrapper w)) = 1 := by
    have hpos : 0 < s.log.countP (Event.brings (Key.wrapper w)) :=
      List.countP_pos_iff.mpr ⟨.enqueue w, hw, beq_self_eq_true w.fixed⟩
    have hle := h.ordered.brings_wrapper w
    omega
  have hlisted : s.listed (Key.wrapper w) = (s.pending w.postid.reg.queue).count w := by
    apply List.countP_congr
    intro x hx
    constructor
    · intro hf
      rw [alike hent hw hone (hent.came _ x hx) (eq_of_beq hf)]
      exact beq_self_eq_true w
    · intro he
      rw [eq_of_beq he]
      exact beq_self_eq_true w.fixed
  have hends : s.log.countP (Event.ends (Key.wrapper w)) =
      s.log.countP (Event.picks w) + s.log.countP (Event.removes w) := by
    apply count_or
    intro e he
    cases e with
    | pick x fit =>
      refine ⟨?_, by rw [Bool.and_comm]; rfl⟩
      show (x.oneShot && x.fixed == w.fixed) = ((x == w) || false)
      rw [Bool.or_false, Bool.eq_iff_iff, Bool.and_eq_true, beq_iff_eq, beq_iff_eq]
      constructor
      · rintro ⟨-, hf⟩
        exact alike hent hw hone (hent.picked x fit he) hf
      · rintro rfl
        exact ⟨hone, rfl⟩
    | remove x why =>
      refine ⟨?_, rfl⟩
      show (x.fixed == w.fixed) = (false || x == w)
      rw [Bool.false_or, Bool.eq_iff_iff, beq_iff_eq, beq_iff_eq]
      constructor
      · exact alike hent hw hone (hent.removed x why he)
      · rintro rfl
        rfl
    | _ => exact ⟨rfl, rfl⟩
  have hbal := h.balanced w
  unfold Balanced at hbal
  omega

theorem left_of_not_runs {f : Frame} (h : ¬ f.runs w = true) : f.left w = [] := by
  unfold Frame.runs at h
  unfold Frame.left
  split
  · rename_i x d r l hpc
    rw [hpc] at h
    exact if_neg (fun e => h (beq_iff_eq.mpr e))
  · rfl

theorem lefts_nil {l : List Frame} (h : l.countP (Frame.runs w) = 0) :
    l.flatMap (Frame.left w) = [] :=
  List.flatMap_eq_nil_iff.mpr (fun f hf => left_of_not_runs (List.countP_eq_zero.mp h f hf))

/-- the one loop that runs the wrapper has what is left -/
theorem lefts_one {l : List Frame} (h : l.countP (Frame.runs w) = 1) :
    ∃ f ∈ l, f.runs w = true ∧ l.flatMap (Frame.left w) = f.left w := by
  obtain ⟨f, hf, hw⟩ := List.countP_pos_iff.mp (show 0 < l.countP (Frame.runs w) by omega)
  refine ⟨f, hf, hw, ?_⟩
  obtain ⟨l₁, l₂, rfl⟩ := List.append_of_mem hf
  rw [List.countP_append, List.countP_cons_of_pos hw] at h
  rw [List.flatMap_append, List.flatMap_cons, lefts_nil (by omega), lefts_nil (l := l₂) (by omega),
    List.nil_append, List.append_nil]

theorem Account.fate (h : Account s) (hw : .enqueue w ∈ s.log) (hone : w.oneShot = true) :
    Fate s w := by
  have hbal := h.balance hw hone
  have hcalls : s.log.countP (Event.picks w) = 0 → s.calls w = [] := fun hk =>
    (List.append_eq_nil_iff.mp (h.served.unpicked w hone hk)).1
  by_cases hk : s.log.countP (Event.picks w) = 0
  · by_cases hr : s.log.countP (Event.removes w) = 0
    · exact .pending (by omega) hk hr (hcalls hk)
    · exact .removed (by omega) hk (by omega) (hcalls hk)
  · have hone' : s.log.countP (Event.picks w) = 1 := by omega
    obtain ⟨e, he, hp⟩ := List.countP_pos_iff.mp (Nat.pos_of_ne_zero hk)
    cases e with
    | pick x fit =>
      have hx : x = w := eq_of_beq hp
      rw [hx] at he
      have hfit := h.served.fit w fit hone he
      have hheld := h.served.held w hone
      rw [hone'] at hheld
      by_cases hf : (s.frames w.postid.reg.queue).countP (Frame.runs w) = 0
      · have hd : 0 < s.log.count (.destroy w) := by omega
        refine .dispatched fit (by omega) hone' (by omega) he (List.count_pos_iff.mp hd) ?_
        rw [← hfit]
        unfold State.lefts
        rw [lefts_nil hf, List.append_nil]
      · obtain ⟨f, hmem, hruns, hleft⟩ := lefts_one
          (show (s.frames w.postid.reg.queue).countP (Frame.runs w) = 1 by omega)
        refine .running fit f (by omega) hone' (by omega) he hmem hruns ?_
        rw [← hleft]
        exact hfit
    | _ => cases hp

/-! ## a cancelled id -/

theorem Books.cancelled {i : MessagePost_t} (h : Books i s) (hm : Move D E s s')
    (hn : s'.draws.Nodup) (hgone : 0 < s.log.countP (Event.leaves i)) {es : List Event}
    (hl : s'.log = es ++ s.log) {fit : List HandlerWrapper} (hw : .pick w fit ∈ es) :
    w.postid ≠ i := by
  rintro rfl
  have htally := h.tally
  have hcount := List.nodup_iff_count.mp (hm.draws.nodup hn) w.postid.seq
  have hnone : s.listed (Key.id w.postid) = 0 := by omega
  -- but a message is picked out of the list
  have hpicked : ∀ q x, x ∈ s.pending q → x.postid = w.postid → False := by
    intro q x hx hid
    refine List.countP_eq_zero.mp hnone x ?_ (beq_iff_eq.mpr hid)
    show x ∈ s.pending w.postid.reg.queue
    rw [← hid, h.entries.home q x hx]
    exact hx
  have hsplit : ∀ es', s'.log = es' ++ s.log → .pick w fit ∈ es' := by
    intro es' hl'
    rw [← grown hl hl']
    exact hw
  cases hm.entry with
  | quiet hp hn es' hq hl' =>
    have hquiet := hq _ (hsplit es' hl')
    cases hquiet
  | enqueue q x he hself hq hp hn hl' =>
    have hmem := hsplit [.enqueue x, .draw x.postid.seq] hl'
    simp at hmem
  | replace q l₁ x l₂ x' hl₀ hself hid hm hq hd hp hn hl' =>
    have hmem := hsplit [.enqueue x', .remove x .replace] hl'
    simp at hmem
  | delete q l₁ x l₂ why hl₀ hd hp hn hl' =>
    have hmem := hsplit [.remove x why] hl'
    simp at hmem
  | take q l₁ x l₂ fit' hl₀ hno hone hp hn hl' =>
    cases List.mem_singleton.mp (hsplit [.pick x fit'] hl')
    exact hpicked q w (Entries.mem_mid hl₀) rfl
  | fire q l₁ x l₂ x' fit' hl₀ hno hone hx' hp hn hl' =>
    cases List.mem_singleton.mp (hsplit [.pick x' fit'] hl')
    exact hpicked q x (Entries.mem_mid hl₀) (fixed_postid hx'.1)

structure Cancelled (i : MessagePost_t) (log : List Event) (s : State) : Prop where
  books : Books i s
  gone : 0 < s.log.countP (Event.leaves i)
  quiet : ∃ es, s.log = es ++ log ∧
    (s.draws.Nodup → ∀ w fit, .pick w fit ∈ es → w.postid ≠ i)

theorem Cancelled.move {i : MessagePost_t} {log : List Event} (h : Cancelled i log s)
    (hm : Move D E s s') : Cancelled i log s' := by
  obtain ⟨es, hl, hes⟩ := h.quiet
  obtain ⟨es', hl'⟩ := hm.entry.log
  refine ⟨h.books.move hm, ?_, es' ++ es, ?_, ?_⟩
  · rw [hl', List.countP_append]
    exact Nat.lt_of_lt_of_le h.gone (Nat.le_add_left _ _)
  · rw [hl', hl, List.append_assoc]
  · intro hn w fit hw
    rcases List.mem_append.mp hw with hw | hw
    · exact h.books.cancelled hm hn h.gone hl' hw
    · exact hes (hm.draws.nodup hn) w fit hw

theorem cancelMessage_leaves {i : MessagePost_t} (h : (s.cancelMessage i).1 = true) :
    0 < (s.cancelMessage i).2.log.countP (Event.leaves i) := by
  unfold State.cancelMessage at h ⊢
  split at h
  · cases h
  · rename_i hz
    rw [if_neg hz]
    split at h
    · cases h
    · split at h
      · cases h
      · rename_i it hit
        apply List.countP_pos_iff.mpr
        refine ⟨.remove it .cancelPost, List.mem_cons_self, ?_⟩
        have hbeq := List.find?_some hit
        have hid : it.postid = i := (eq_of_beq hbeq).symm
        show (it.postid == i && !false) = true
        rw [hid, beq_self_eq_true]
        rfl

/-- **One fate for each message.**  A one-shot message that has come in has exactly one `Fate`; a
step picks a message for the handlers that are installed for it then; and behind a `CancelMessage`
that has returned `true` no message of that id is picked, where no number is drawn twice. -/
theorem one_fate (h : Reachable s) :
    (∀ w, .enqueue w ∈ s.log → w.oneShot = true → Fate s w) ∧
    (∀ a s' es, step s a = some s' → s'.log = es ++ s.log → ∀ w fit, .pick w fit ∈ es →
      fit = (s.installed w.postid.reg.queue).filter (fits w.postid.reg)) ∧
    ∀ t i s₁ s₂, step s (.call t (.cancelMessage i)) = some s₁ → (s.cancelMessage i).1 = true →
      Runs.AnyRun step s₁ s₂ → s₂.draws.Nodup → ∀ es, s₂.log = es ++ s₁.log →
        ∀ w fit, .pick w fit ∈ es → w.postid ≠ i := by
  refine ⟨fun w hw hone => (Reachable.account h).fate hw hone, ?_, ?_⟩
  · intro a s' es hs hl w fit hw
    rcases step_loud (E := fun _ => True) h.map_zero hs (fun _ _ _ => trivial) hl hw rfl with ⟨t, hC, -⟩ | ⟨t, n, he, -⟩ |
      ⟨t, x, d, lst, he, hsc⟩
    · cases hC
    · cases he
    · cases he
      obtain ⟨l₁, it, l₂, hl₀, -, -, hx, -⟩ := scan_found hsc
      have hq : w.postid.reg.queue = t := by
        rw [hx, ← fixed_postid (same_rearm s.now it).1]
        exact h.entries.home t it (Entries.mem_mid hl₀)
      rw [hq]
  · intro t i s₁ s₂ hs hret hr hn es hl
    have h₁ : Reachable s₁ := h.step hs
    have hs₁ : s₁ = (s.cancelMessage i).2 := by
      cases step_cases hs with
      | call _ _ _ _ _ hexec =>
        cases hexec
        rfl
    have hinit : Cancelled i s₁.log s₁ := by
      refine ⟨h₁.books i, ?_, [], rfl, fun _ w fit hw => by cases hw⟩
      rw [hs₁]
      exact cancelMessage_leaves hret
    have hall := (keep_any (P := Cancelled i s₁.log) hr h₁.map_zero (fun _ _ hu hm => hu.move hm)
      hinit).1
    obtain ⟨es', hl', hes⟩ := hall.quiet
    rw [grown hl hl']
    exact hes hn

def oneDispatch : List Act :=
  [.call 7 (.createMessageQueueInfo 7), .call 7 (.installMessageHandler 1 false 7),
    .call 8 (.postMessage ⟨7, 2⟩ ⟨1, none⟩ ⟨.kImmediately, 0, 0⟩), .run 7 false, .enter 7,
    .loop 7 false, .callHandler 7, .handlerReturn 7, .finish 7]

theorem one_fate_dispatched : ∃ s w, Reachable s ∧ .destroy w ∈ s.log ∧
    s.calls w = [⟨⟨7, 2⟩, 1, false⟩] ∧ Fate s w := by
  let w : MessageWrapper :=
    ⟨1, ⟨⟨7, 2⟩, 3⟩, ⟨1, none⟩, ⟨.kImmediately, 0, 0⟩, .kImmediately, 0⟩
  obtain ⟨s, hr, hs⟩ := Runs.Run.of_test
    (f := fun s => s.log.contains (.destroy w) && s.log.contains (.enqueue w) &&
      s.calls w == [⟨⟨7, 2⟩, 1, false⟩])
    (show (Runs.exec step init oneDispatch).any _ = true by decide)
  obtain ⟨h1, h3⟩ := Bool.and_eq_true_iff.mp hs
  obtain ⟨h1, h2⟩ := Bool.and_eq_true_iff.mp h1
  have hw := List.contains_iff_mem.mp h2
  exact ⟨s, w, hr, List.contains_iff_mem.mp h1, eq_of_beq h3, (one_fate hr).1 w hw rfl⟩

end MessageQueue
