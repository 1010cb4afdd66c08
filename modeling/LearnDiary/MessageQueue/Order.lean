import LearnDiary.Lib.History
import LearnDiary.MessageQueue.Ledger

/-!
# Message queues: first in, first out

The address of a wrapper grows with each `enqueue`, so it tells when the message has come in.  The
immediate messages a queue has picked have addresses that grow too, all of them below those of the
immediate messages still in the list.

* `Fifo`   this as an invariant;
* `fifo`   two immediate messages are picked in the order they have come in.
-/

namespace MessageQueue
open State History

def Event.enqueueStamp : Event → Option Nat
  | .enqueue w => some w.self
  | _ => none

/-- the address of an immediate message the loops of the queue pick -/
def Event.pickStamp (q : MessageQueue_t) : Event → Option Nat
  | .pick w _ => if w.immediate = true ∧ w.postid.reg.queue = q then some w.self else none
  | _ => none

/-- the numbers of a history with the newest event first -/
abbrev Growing (f : Event → Option Nat) (log : List Event) : Prop :=
  (log.filterMap f).Pairwise (fun x y => y < x)

variable {D : State → MessageWrapper → Why → Prop} {E : Guard → Prop} {s s' : State} {q : MessageQueue_t}

section
variable {f : Event → Option Nat} {log : List Event} {e : Event} {es : List Event}

theorem Growing.cons_none (h : Growing f log) (he : f e = none) : Growing f (e :: log) := by
  unfold Growing
  rw [List.filterMap_cons_none he]
  exact h

theorem Growing.cons_some {a : Nat} (h : Growing f log) (he : f e = some a)
    (hlt : ∀ x ∈ log, ∀ b, f x = some b → b < a) : Growing f (e :: log) := by
  unfold Growing
  rw [List.filterMap_cons_some he]
  refine List.pairwise_cons.mpr ⟨fun b hb => ?_, h⟩
  obtain ⟨x, hx, hfx⟩ := List.mem_filterMap.mp hb
  exact hlt x hx b hfx

theorem Growing.append_none (h : Growing f log) (hes : ∀ e ∈ es, f e = none) :
    Growing f (es ++ log) := by
  induction es with
  | nil => exact h
  | cons e es ih =>
    have hrest := ih (fun x hx => hes x (List.mem_cons_of_mem _ hx))
    exact hrest.cons_none (hes e List.mem_cons_self)

end

theorem enqueueStamp_some {e : Event} {a : Nat} (h : e.enqueueStamp = some a) :
    ∃ w, e = .enqueue w ∧ w.self = a := by
  cases e with
  | enqueue w => exact ⟨w, rfl, Option.some.inj h⟩
  | _ => cases h

theorem pickStamp_some {e : Event} {a : Nat} (h : e.pickStamp q = some a) :
    ∃ w fit, e = .pick w fit ∧ w.immediate = true ∧ w.postid.reg.queue = q ∧ w.self = a := by
  cases e with
  | pick w fit =>
    unfold Event.pickStamp at h
    dsimp only at h
    split at h
    · rename_i hw
      exact ⟨w, fit, rfl, hw.1, hw.2, Option.some.inj h⟩
    · cases h
  | _ => cases h

theorem pickStamp_pick {w : MessageWrapper} (fit : List HandlerWrapper) (hi : w.immediate = true)
    (hq : w.postid.reg.queue = q) : (Event.pick w fit).pickStamp q = some w.self :=
  if_pos ⟨hi, hq⟩

theorem pickStamp_timed {w : MessageWrapper} (fit : List HandlerWrapper) (hi : w.immediate = false) :
    (Event.pick w fit).pickStamp q = none := by
  refine if_neg ?_
  rw [hi]
  exact fun h => Bool.false_ne_true h.1

theorem quiet_stamps {e : Event} (h : e.quiet = true) :
    e.enqueueStamp = none ∧ e.pickStamp q = none := by
  cases e with
  | enqueue | remove | pick => cases h
  | _ => exact ⟨rfl, rfl⟩

structure Fifo (s : State) : Prop where
  entries : Entries s
  entered : Growing Event.enqueueStamp s.log
  picked : ∀ q, Growing (Event.pickStamp q) s.log
  ahead : ∀ q w fit, .pick w fit ∈ s.log → w.immediate = true → w.postid.reg.queue = q →
    ∀ x ∈ s.pending q, x.immediate = true → w.self < x.self

theorem Fifo.init : Fifo init where
  entries := Entries.init
  entered := List.Pairwise.nil
  picked _ := List.Pairwise.nil
  ahead _ _ _ h := by cases h

theorem Fifo.pick_lt (h : Entries s) {w : MessageWrapper} {fit : List HandlerWrapper}
    (hw : .pick w fit ∈ s.log) : w.self < s.next := by
  obtain ⟨w₀, h0, he⟩ := h.picked w fit hw
  rw [← fixed_self he.1]
  exact h.logged w₀ h0

theorem Fifo.push (h : Fifo s) (h' : Entries s') {w : MessageWrapper} {l : List MessageWrapper}
    (es : List Event) (hself : w.self = s.next) (hsub : ∀ x ∈ l, x ∈ s.pending q)
    (hp : s'.pending = Function.update s.pending q (l ++ [w]))
    (hl : s'.log = .enqueue w :: (es ++ s.log))
    (hes : ∀ e ∈ es, e.enqueueStamp = none ∧ ∀ p, e.pickStamp p = none)
    (hpick : ∀ x fit, .pick x fit ∉ es) : Fifo s' := by
  refine ⟨h', ?_, ?_, ?_⟩
  · rw [hl]
    refine (h.entered.append_none (fun e he => (hes e he).1)).cons_some rfl ?_
    intro x hx b hb
    obtain ⟨y, rfl, rfl⟩ := enqueueStamp_some hb
    rcases List.mem_append.mp hx with hx | hx
    · exact absurd (hes _ hx).1 (by rw [hb]; exact Option.some_ne_none _)
    · rw [hself]
      exact h.entries.logged y hx
  · intro p
    rw [hl]
    exact ((h.picked p).append_none (fun e he => (hes e he).2 p)).cons_none rfl
  · intro p x fit hx hi hq y hy hyi
    have hx' : .pick x fit ∈ s.log := by
      rw [hl] at hx
      rcases List.mem_cons.mp hx with hx | hx
      · cases hx
      · rcases List.mem_append.mp hx with hx | hx
        · exact absurd hx (hpick x fit)
        · exact hx
    rcases mem_lists hp hy with hy | ⟨rfl, hy⟩
    · exact h.ahead p x fit hx' hi hq y hy hyi
    · rcases List.mem_append.mp hy with hy | hy
      · exact h.ahead p x fit hx' hi hq y (hsub y hy) hyi
      · rw [List.mem_singleton.mp hy, hself]
        exact Fifo.pick_lt h.entries hx'

/-- **First in, first out is kept** by whatever happens to the lists. -/
theorem Fifo.step (h : Fifo s) (he : Entry D E s s') : Fifo s' := by
  have hent := h.entries.step he
  cases he with
  | quiet hp hn es hq hl =>
    refine ⟨hent, ?_, ?_, ?_⟩
    · rw [hl]
      exact h.entered.append_none (fun e he => (quiet_stamps (q := 0) (hq e he)).1)
    · intro p
      rw [hl]
      exact (h.picked p).append_none (fun e he => (quiet_stamps (hq e he)).2)
    · intro p w fit hw
      rw [hl] at hw
      rw [hp]
      rcases List.mem_append.mp hw with hw | hw
      · exact absurd (hq _ hw) Bool.false_ne_true
      · exact h.ahead p w fit hw
  | enqueue q w he hself hq hp hn hl =>
    refine h.push hent [.draw w.postid.seq] hself (fun _ hx => hx) hp hl ?_ ?_
    · intro e he
      rw [List.mem_singleton.mp he]
      exact ⟨rfl, fun _ => rfl⟩
    · intro x fit hx
      cases List.mem_singleton.mp hx
  | replace q l₁ w l₂ w' hl₀ hself hid hm hq hd hp hn hl =>
    refine h.push hent [.remove w .replace] hself (fun _ hx => Entries.mem_rest hl₀ hx) hp hl ?_ ?_
    · intro e he
      rw [List.mem_singleton.mp he]
      exact ⟨rfl, fun _ => rfl⟩
    · intro x fit hx
      cases List.mem_singleton.mp hx
  | delete q l₁ w l₂ why hl₀ hd hp hn hl =>
    refine ⟨hent, ?_, ?_, ?_⟩
    · rw [hl]
      exact h.entered.cons_none rfl
    · intro p
      rw [hl]
      exact (h.picked p).cons_none rfl
    · intro p x fit hx hi hq y hy hyi
      rw [hl] at hx
      rcases List.mem_cons.mp hx with hx | hx
      · cases hx
      · rcases mem_lists hp hy with hy | ⟨rfl, hy⟩
        · exact h.ahead p x fit hx hi hq y hy hyi
        · exact h.ahead p x fit hx hi hq y (Entries.mem_rest hl₀ hy) hyi
  | take q l₁ w l₂ fit hl₀ hno hone hp hn hl =>
    have hw : w ∈ s.pending q := Entries.mem_mid hl₀
    refine ⟨hent, ?_, ?_, ?_⟩
    · rw [hl]
      exact h.entered.cons_none rfl
    · intro p
      rw [hl]
      by_cases hcase : w.immediate = true ∧ w.postid.reg.queue = p
      · refine (h.picked p).cons_some (pickStamp_pick fit hcase.1 hcase.2) ?_
        intro e he b hb
        obtain ⟨x, fitx, rfl, hxi, hxq, rfl⟩ := pickStamp_some hb
        have hpq : p = q := by rw [← hcase.2]; exact h.entries.home q w hw
        rw [hpq] at hxq
        exact h.ahead q x fitx he hxi hxq w hw hcase.1
      · exact (h.picked p).cons_none (if_neg hcase)
    · intro p x fitx hx hi hxq y hy hyi
      have hyp : y ∈ s.pending p := by
        rcases mem_lists hp hy with hy | ⟨rfl, hy⟩
        · exact hy
        · exact Entries.mem_rest hl₀ hy
      rw [hl] at hx
      rcases List.mem_cons.mp hx with hx | hx
      · -- the picked message stood before every immediate one
        cases hx
        have hpq : p = q := by rw [← hxq]; exact h.entries.home q w hw
        subst hpq
        rw [hp, Function.update_self] at hy
        have hasc := h.entries.ascending p
        rw [hl₀, List.map_append, List.map_cons, List.pairwise_append] at hasc
        rcases List.mem_append.mp hy with hy | hy
        · rw [hno y hy] at hyi
          cases hyi
        · exact (List.pairwise_cons.mp hasc.2.1).1 _ (List.mem_map_of_mem hy)
      · exact h.ahead p x fitx hx hi hxq y hyp hyi
  | fire q l₁ w l₂ w' fit hl₀ hno hone hw' hp hn hl =>
    have htimed : ∀ x : MessageWrapper, x.oneShot = false → x.immediate = false := by
      intro x hx
      by_contra hi
      rw [immediate_oneShot (Bool.not_eq_false _ ▸ hi)] at hx
      cases hx
    have hone' : w'.oneShot = false := by rw [← fixed_oneShot hw'.1]; exact hone
    refine ⟨hent, ?_, ?_, ?_⟩
    · rw [hl]
      exact h.entered.cons_none rfl
    · intro p
      rw [hl]
      exact (h.picked p).cons_none (pickStamp_timed fit (htimed w' hone'))
    · intro p x fitx hx hi hxq y hy hyi
      rw [hl] at hx
      rcases List.mem_cons.mp hx with hx | hx
      · cases hx
        rw [htimed w' hone'] at hi
        cases hi
      · rcases mem_lists hp hy with hy | ⟨rfl, hy⟩
        · exact h.ahead p x fitx hx hi hxq y hy hyi
        · rcases List.mem_append.mp hy with hy | hy
          · exact h.ahead p x fitx hx hi hxq y
              (Entries.mem_rest hl₀ (List.mem_append_left _ hy)) hyi
          · rcases List.mem_cons.mp hy with rfl | hy
            · rw [htimed y hone'] at hyi
              cases hyi
            · exact h.ahead p x fitx hx hi hxq y
                (Entries.mem_rest hl₀ (List.mem_append_right _ hy)) hyi

theorem Reachable.ordered (h : Reachable s) : Fifo s :=
  h.keep (fun _ _ hu hm => hu.step hm.entry) Fifo.init

/-- an immediate message is picked as it has come in -/
theorem Entries.enqueue_of_pick (h : Entries s) {w : MessageWrapper} {fit : List HandlerWrapper}
    (hw : .pick w fit ∈ s.log) (hone : w.oneShot = true) : .enqueue w ∈ s.log := by
  obtain ⟨w₀, h0, he⟩ := h.picked w fit hw
  have hone' : w₀.oneShot = true := by rw [fixed_oneShot he.1]; exact hone
  rw [← he.2 hone']
  exact h0

/-- **First in, first out**: two immediate messages of one queue that are both dispatched are
dispatched in the order they have come in. -/
theorem fifo (h : Reachable s) {w w' : MessageWrapper} {fit fit' : List HandlerWrapper}
    (hw : .pick w fit ∈ s.log) (hw' : .pick w' fit' ∈ s.log) (hi : w.immediate = true)
    (hi' : w'.immediate = true) (hq : w.postid.reg.queue = w'.postid.reg.queue) :
    Earlier (.enqueue w) (.enqueue w') s.log ↔ Earlier (.pick w fit) (.pick w' fit') s.log := by
  have hf := Reachable.ordered h
  have he := hf.entries.enqueue_of_pick hw (immediate_oneShot hi)
  have he' := hf.entries.enqueue_of_pick hw' (immediate_oneShot hi')
  rw [earlier_iff_lt hf.entered rfl rfl he he']
  rw [earlier_iff_lt (hf.picked _) (pickStamp_pick fit hi rfl) (pickStamp_pick fit' hi' hq.symm)
    hw hw']

def twoPosts : List Act :=
  [.call 7 (.createMessageQueueInfo 7),
    .call 7 (.postMessage ⟨7, 9⟩ ⟨1, none⟩ ⟨.kImmediately, 0, 0⟩),
    .call 7 (.postMessage ⟨7, 9⟩ ⟨2, none⟩ ⟨.kImmediately, 0, 0⟩),
    .run 7 false, .enter 7, .loop 7 false, .finish 7, .loop 7 false]

def post (n : Nat) : MessageWrapper :=
  ⟨n, ⟨⟨7, 9⟩, UInt32.ofNat n + 1⟩, ⟨UInt64.ofNat n, none⟩, ⟨.kImmediately, 0, 0⟩, .kImmediately, 0⟩

theorem fifo_two : ∃ s, Reachable s ∧ .pick (post 1) [] ∈ s.log ∧ .pick (post 2) [] ∈ s.log ∧
    (Earlier (.enqueue (post 1)) (.enqueue (post 2)) s.log ↔
      Earlier (.pick (post 1) []) (.pick (post 2) []) s.log) := by
  obtain ⟨s, hr, hs⟩ := Runs.Run.of_test
    (f := fun s => s.log.contains (.pick (post 1) []) && s.log.contains (.pick (post 2) []))
    (show (Runs.exec step init twoPosts).any _ = true by decide)
  obtain ⟨h1, h2⟩ := Bool.and_eq_true_iff.mp hs
  have h1 := List.contains_iff_mem.mp h1
  have h2 := List.contains_iff_mem.mp h2
  exact ⟨s, hr, h1, h2, fifo hr h1 h2 rfl rfl rfl⟩

end MessageQueue
