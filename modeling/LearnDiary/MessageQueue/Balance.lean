import LearnDiary.MessageQueue.Ids
import LearnDiary.MessageQueue.Order

/-!
# Message queues: the balance of the entries

What has come in is still in the list or has left it for good: a one-shot message when a loop picks
it, any message when it is deleted.  This is counted for the messages with a property that never
changes and tells their queue (`Key`): one wrapper, or all wrappers under one id.

* `Balanced`            what has left and what is in the list make up what has come in;
* `Reachable.balanced`  in every reachable state;
* `Reachable.tally`     under an id no more comes in than was drawn.
-/

namespace MessageQueue
open State

structure Key where
  p : MessageWrapper → Bool
  queue : MessageQueue_t
  home : ∀ w, p w = true → w.postid.reg.queue = queue
  fixed : ∀ w w', w.fixed = w'.fixed → p w = p w'

/-- the wrapper itself, also when it has started a new period -/
def Key.wrapper (w : MessageWrapper) : Key where
  p x := x.fixed == w.fixed
  queue := w.postid.reg.queue
  home x h := by rw [fixed_postid (eq_of_beq h)]
  fixed x y h := by rw [h]

/-- all that is posted under the id -/
def Key.id (i : MessagePost_t) : Key where
  p x := x.postid == i
  queue := i.reg.queue
  home x h := by rw [eq_of_beq h]
  fixed x y h := by rw [fixed_postid h]

def Event.brings (k : Key) : Event → Bool
  | .enqueue w => k.p w
  | _ => false

/-- the message leaves the list for good -/
def Event.ends (k : Key) : Event → Bool
  | .pick w _ => w.oneShot && k.p w
  | .remove w _ => k.p w
  | _ => false

/-- another one takes its place and its id -/
def Event.replaces (k : Key) : Event → Bool
  | .remove w .replace => k.p w
  | _ => false

def State.listed (s : State) (k : Key) : Nat := (s.pending k.queue).countP k.p

def Balanced (k : Key) (s : State) : Prop :=
  s.log.countP (Event.ends k) + s.listed k = s.log.countP (Event.brings k)

variable {D : State → MessageWrapper → Why → Prop} {E : Guard → Prop} {s s' : State} {k : Key}

def Key.one (k : Key) (w : MessageWrapper) : Nat := if k.p w then 1 else 0

theorem Key.one_of_ne {w : MessageWrapper} (h : w.postid.reg.queue ≠ k.queue) : k.one w = 0 := by
  apply if_neg
  intro hp
  exact h (k.home w hp)

theorem Key.count_cons (k : Key) (w : MessageWrapper) (l : List MessageWrapper) :
    (w :: l).countP k.p = l.countP k.p + k.one w := List.countP_cons

theorem listed_update {q : MessageQueue_t} {l : List MessageWrapper} {a b : Nat}
    (hp : s'.pending = Function.update s.pending q l)
    (hl : l.countP k.p + a = (s.pending q).countP k.p + b) (hne : q ≠ k.queue → a = b) :
    s'.listed k + a = s.listed k + b := by
  unfold State.listed
  rw [hp]
  by_cases e : k.queue = q
  · rw [e, Function.update_self]
    exact hl
  · rw [Function.update_of_ne e, hne (Ne.symm e)]

theorem quiet_counts {e : Event} (h : e.quiet = true) :
    e.ends k = false ∧ e.brings k = false ∧ e.replaces k = false := by
  cases e with
  | enqueue | remove | pick => cases h
  | _ => exact ⟨rfl, rfl, rfl⟩

theorem count_quiet {es log : List Event} {p : Event → Bool} (h : ∀ e ∈ es, p e = false) :
    (es ++ log).countP p = log.countP p := by
  have hnone : es.countP p = 0 := by
    rw [List.countP_eq_zero]
    intro e he
    rw [h e he]
    exact Bool.false_ne_true
  rw [List.countP_append, hnone, Nat.zero_add]

theorem Balanced.init : Balanced k init := rfl

/-- **The balance is kept** by whatever happens to the lists. -/
theorem Balanced.step (h : Balanced k s) (hent : Entries s) (he : Entry D E s s') :
    Balanced k s' := by
  unfold Balanced at h ⊢
  cases he with
  | quiet hp hn es hq hl =>
    have hlist : s'.listed k = s.listed k := by
      unfold State.listed
      rw [hp]
    rw [hl, count_quiet (fun e he => (quiet_counts (hq e he)).1),
      count_quiet (fun e he => (quiet_counts (hq e he)).2.1), hlist]
    exact h
  | enqueue q w he hself hq hp hn hl =>
    have hlist : s'.listed k + 0 = s.listed k + k.one w := by
      refine listed_update hp ?_ (fun hne => (Key.one_of_ne (hq ▸ hne)).symm)
      rw [List.countP_append, k.count_cons, List.countP_nil]
      omega
    rw [hl, List.countP_cons_of_neg (by exact Bool.false_ne_true),
      List.countP_cons_of_neg (by exact Bool.false_ne_true), List.countP_cons,
      List.countP_cons_of_neg (by exact Bool.false_ne_true)]
    show _ = _ + k.one w
    omega
  | replace q l₁ w l₂ w' hl₀ hself hid hm hq hd hp hn hl =>
    have hq' : w'.postid.reg.queue = q := by rw [hid, hq]
    have hlist : s'.listed k + k.one w = s.listed k + k.one w' := by
      refine listed_update hp ?_ (fun hne => ?_)
      · rw [hl₀, List.countP_append, List.countP_append, List.countP_append, k.count_cons,
          k.count_cons, List.countP_nil]
        omega
      · rw [Key.one_of_ne (hq ▸ hne), Key.one_of_ne (hq' ▸ hne)]
    rw [hl, List.countP_cons_of_neg (by exact Bool.false_ne_true), List.countP_cons,
      List.countP_cons, List.countP_cons_of_neg (by exact Bool.false_ne_true)]
    show _ + k.one w + _ = _ + k.one w'
    omega
  | delete q l₁ w l₂ why hl₀ hd hp hn hl =>
    have hq := hent.home q w (Entries.mem_mid hl₀)
    have hlist : s'.listed k + k.one w = s.listed k + 0 := by
      refine listed_update hp ?_ (fun hne => Key.one_of_ne (hq ▸ hne))
      rw [hl₀, List.countP_append, List.countP_append, k.count_cons]
      omega
    rw [hl, List.countP_cons, List.countP_cons_of_neg (by exact Bool.false_ne_true)]
    show _ + k.one w + _ = _
    omega
  | take q l₁ w l₂ fit hl₀ hno hone hp hn hl =>
    have hq := hent.home q w (Entries.mem_mid hl₀)
    have hlist : s'.listed k + k.one w = s.listed k + 0 := by
      refine listed_update hp ?_ (fun hne => Key.one_of_ne (hq ▸ hne))
      rw [hl₀, List.countP_append, List.countP_append, k.count_cons]
      omega
    rw [hl, List.countP_cons, List.countP_cons_of_neg (by exact Bool.false_ne_true)]
    have hends : (Event.pick w fit).ends k = k.p w := by
      show (w.oneShot && k.p w) = k.p w
      rw [hone, Bool.true_and]
    rw [hends]
    show _ + k.one w + _ = _
    omega
  | fire q l₁ w l₂ w' fit hl₀ hno hone hw' hp hn hl =>
    have hlist : s'.listed k + 0 = s.listed k + 0 := by
      refine listed_update hp ?_ (fun _ => rfl)
      rw [hl₀, List.countP_append, List.countP_append, k.count_cons, k.count_cons]
      unfold Key.one
      rw [k.fixed w w' hw'.1]
    have hends : ¬ (Event.pick w' fit).ends k = true := by
      show ¬ (w'.oneShot && k.p w') = true
      rw [← fixed_oneShot hw'.1, hone]
      exact Bool.false_ne_true
    rw [hl, List.countP_cons_of_neg hends, List.countP_cons_of_neg (by exact Bool.false_ne_true)]
    omega

theorem Reachable.balanced (h : Reachable s) (k : Key) : Balanced k s := by
  have hkeep := h.keep (P := fun s => Entries s ∧ Balanced k s) ?_ ⟨Entries.init, Balanced.init⟩
  · exact hkeep.2
  · rintro u v ⟨h1, h2⟩ hm
    exact ⟨h1.step hm.entry, h2.step h1 hm.entry⟩

/-! ## what comes in -/

theorem count_stamps (w : MessageWrapper) (log : List Event) :
    log.countP (Event.brings (Key.wrapper w)) ≤ (log.filterMap Event.enqueueStamp).count w.self := by
  induction log with
  | nil => exact le_rfl
  | cons e log ih =>
    rw [List.countP_cons]
    cases e with
    | enqueue x =>
      rw [List.filterMap_cons_some (f := Event.enqueueStamp) (b := x.self) rfl, List.count_cons]
      show _ + (if (x.fixed == w.fixed) = true then 1 else 0) ≤ _
      by_cases hx : x.fixed = w.fixed
      · rw [if_pos (beq_iff_eq.mpr hx), if_pos (beq_iff_eq.mpr (fixed_self hx))]
        omega
      · rw [if_neg (by rw [beq_iff_eq]; exact hx)]
        omega
    | _ => exact ih

/-- **A wrapper comes in once.** -/
theorem Fifo.brings_wrapper (h : Fifo s) (w : MessageWrapper) :
    s.log.countP (Event.brings (Key.wrapper w)) ≤ 1 := by
  have hnodup : (s.log.filterMap Event.enqueueStamp).Nodup :=
    h.entered.imp (fun hab => (Nat.ne_of_lt hab).symm)
  exact (count_stamps w s.log).trans (List.nodup_iff_count.mp hnodup w.self)

/-- under an id comes in what was drawn, and what takes the place of another -/
def Tallied (i : MessagePost_t) (s : State) : Prop :=
  s.log.countP (Event.brings (Key.id i)) ≤
    s.draws.count i.seq + s.log.countP (Event.replaces (Key.id i))

theorem Tallied.step {i : MessagePost_t} (h : Tallied i s) (he : Entry D E s s') :
    Tallied i s' := by
  unfold Tallied at h ⊢
  have hdraws : s'.draws = s.draws → s'.draws.count i.seq = s.draws.count i.seq := by
    intro e
    rw [e]
  cases he with
  | quiet hp hn es hq hl =>
    rw [draws_append hl, hl,
      count_quiet (p := Event.brings (Key.id i)) (fun e he => (quiet_counts (hq e he)).2.1),
      count_quiet (p := Event.replaces (Key.id i)) (fun e he => (quiet_counts (hq e he)).2.2),
      List.count_append]
    omega
  | enqueue q w he hself hq hp hn hl =>
    have hcount : (Key.id i).one w ≤ [w.postid.seq].count i.seq := by
      unfold Key.one
      split
      · rename_i hw
        have hid : w.postid = i := eq_of_beq hw
        rw [hid, List.count_singleton_self]
      · exact Nat.zero_le _
    have hl₂ : s'.log = [.enqueue w, .draw w.postid.seq] ++ s.log := hl
    rw [draws_append hl₂, hl, List.countP_cons, List.countP_cons_of_neg (by exact Bool.false_ne_true),
      List.countP_cons_of_neg (by exact Bool.false_ne_true),
      List.countP_cons_of_neg (by exact Bool.false_ne_true), List.count_append]
    show _ + (Key.id i).one w ≤ [w.postid.seq].count i.seq + _ + _
    omega
  | replace q l₁ w l₂ w' hl₀ hself hid hm hq hd hp hn hl =>
    have hone : (Key.id i).one w' = (Key.id i).one w := by
      have hp : (Key.id i).p w' = (Key.id i).p w := by
        show (w'.postid == i) = (w.postid == i)
        rw [hid]
      unfold Key.one
      rw [hp]
    have hl₂ : s'.log = [.enqueue w', .remove w .replace] ++ s.log := hl
    rw [draws_append hl₂, hl, List.countP_cons, List.countP_cons_of_neg (by exact Bool.false_ne_true),
      List.countP_cons_of_neg (by exact Bool.false_ne_true), List.countP_cons]
    show _ + (Key.id i).one w' ≤ s.draws.count i.seq + (_ + (Key.id i).one w)
    omega
  | delete q l₁ w l₂ why hl₀ hd hp hn hl =>
    have hl₂ : s'.log = [.remove w why] ++ s.log := hl
    rw [draws_append hl₂, hl, List.countP_cons_of_neg (by exact Bool.false_ne_true), List.countP_cons]
    show _ ≤ s.draws.count i.seq + (_ + _)
    omega
  | take q l₁ w l₂ fit hl₀ hno hone hp hn hl =>
    have hl₂ : s'.log = [.pick w fit] ++ s.log := hl
    rw [draws_append hl₂, hl, List.countP_cons_of_neg (by exact Bool.false_ne_true),
      List.countP_cons_of_neg (by exact Bool.false_ne_true)]
    exact h
  | fire q l₁ w l₂ w' fit hl₀ hno hone hw' hp hn hl =>
    have hl₂ : s'.log = [.pick w' fit] ++ s.log := hl
    rw [draws_append hl₂, hl, List.countP_cons_of_neg (by exact Bool.false_ne_true),
      List.countP_cons_of_neg (by exact Bool.false_ne_true)]
    exact h

/-- the id goes: its message is picked for the only time, or deleted with nothing in its place -/
def Event.leaves (i : MessagePost_t) (e : Event) : Bool :=
  e.ends (Key.id i) && !e.replaces (Key.id i)

theorem count_leaves (i : MessagePost_t) (log : List Event) :
    log.countP (Event.ends (Key.id i)) =
      log.countP (Event.leaves i) + log.countP (Event.replaces (Key.id i)) := by
  induction log with
  | nil => rfl
  | cons e log ih =>
    have hreplace : e.replaces (Key.id i) = true → e.ends (Key.id i) = true := by
      intro he
      cases e with
      | remove w why =>
        cases why with
        | replace => exact he
        | _ => cases he
      | _ => cases he
    rw [List.countP_cons, List.countP_cons, List.countP_cons, ih]
    unfold Event.leaves
    cases h1 : e.ends (Key.id i) with
    | true =>
      cases e.replaces (Key.id i) with
      | true | false => simp; omega
    | false =>
      rw [h1] at hreplace
      have h2 : e.replaces (Key.id i) = false := Bool.eq_false_iff.mpr (fun e => by cases hreplace e)
      rw [h2]
      simp

structure Books (i : MessagePost_t) (s : State) : Prop where
  entries : Entries s
  balanced : Balanced (Key.id i) s
  tallied : Tallied i s

theorem Books.move {i : MessagePost_t} (h : Books i s) (hm : Move D E s s') : Books i s' :=
  ⟨h.entries.step hm.entry, h.balanced.step h.entries hm.entry, h.tallied.step hm.entry⟩

theorem Reachable.books (h : Reachable s) (i : MessagePost_t) : Books i s :=
  h.keep (fun _ _ hu hm => hu.move hm) ⟨Entries.init, Balanced.init, le_rfl⟩

/-- **Under an id no more has come in than was drawn**: what is in the list and what has left. -/
theorem Books.tally {i : MessagePost_t} (h : Books i s) :
    s.log.countP (Event.leaves i) + s.listed (Key.id i) ≤ s.draws.count i.seq := by
  have h1 := h.balanced
  have h2 := h.tallied
  unfold Balanced at h1
  unfold Tallied at h2
  rw [count_leaves] at h1
  omega

end MessageQueue
