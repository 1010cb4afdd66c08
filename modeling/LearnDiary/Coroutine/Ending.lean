import LearnDiary.Coroutine.WaitCalls

/-!
# The event that ends a call (comm/coroutine/coro_async.h)

* `Ending.step`     an event that has come to a call stays the one it ends by;
* `Ending.facts`    what that says of the messages and the history;
* `Inv.cancels`     when `Cancel` is that event.
-/

namespace Coroutine.Calls
open Runs

section
variable {R : Type} {s s' : State R} {c : Call} {n : Nat} {event : Event}

/-- the event of call `n` has come, and it is or will be resumed by that -/
def Ending (s : State R) (n : Nat) (event : Event) : Prop :=
  (∃ c st, s.current = some c ∧ c.call = n ∧ Going s c st ∧ st.event = some event) ∨
  (n < s.calls ∧ (∀ c, s.current = some c → c.call ≠ n) ∧
    ∃ x, resumes s.log n = [x] ∧ x.event = event)

theorem Stage.wake_of_event {st : Stage} {e e' : Event} (h : st.event = some e) :
    (st.wake e').event = some e := by
  cases st with
  | open_ timed => cases h
  | posted _ | handed _ | done _ => exact h

theorem Stage.pick_of_event {st st' : Stage} {e : Event} (h : st.event = some e)
    (hp : st.pick = some st') : st'.event = some e := by
  obtain ⟨e', rfl, ⟨rfl, -⟩ | rfl⟩ := Stage.pick_some hp
  · cases h
  · exact h

theorem Ending.step {a : Act R} (h : Inv s) (hf : Fresh s a) (he : Ending s n event)
    (hs : step s a = some s') : Ending s' n event := by
  -- a step that neither begins nor resumes nor returns a call leaves the second case
  have hlater : s'.calls = s.calls → (∀ c', s'.current = some c' → ∃ c, s.current = some c ∧ c'.call = c.call) →
      resumes s'.log n = resumes s.log n → (n < s.calls ∧ (∀ c, s.current = some c → c.call ≠ n) ∧
        ∃ x, resumes s.log n = [x] ∧ x.event = event) → Ending s' n event := by
    rintro hcalls hcur hlog ⟨hn, hother, hx⟩
    refine Or.inr ⟨hcalls ▸ hn, fun c' hc' => ?_, hlog ▸ hx⟩
    obtain ⟨c, hc, heq⟩ := hcur c' hc'
    rw [heq]
    exact hother c hc
  cases a with
  | call co _timeout overload =>
    obtain ⟨hc, hs⟩ := Option.ite_none_right_eq_some.mp hs
    cases hs
    obtain ⟨c, st, hcc, -⟩ | ⟨hn, -, hx⟩ := he
    · rw [hc] at hcc
      cases hcc
    · refine Or.inr ⟨Nat.lt_succ_of_lt hn, fun c hc => ?_, hx⟩
      cases hc
      exact (Nat.ne_of_lt hn).symm
  | yield =>
    obtain ⟨c, hc, hs⟩ := Option.bind_eq_some_iff.mp hs
    obtain ⟨hp, hs⟩ := Option.ite_none_right_eq_some.mp hs
    cases hs
    obtain ⟨d, st, hd, hdn, hg, hev⟩ | he := he
    · rw [hc] at hd
      cases hd
      exact Or.inl ⟨_, st, rfl, hdn, hg.yield hp, hev⟩
    · refine hlater rfl (fun c' hc' => ?_) rfl he
      cases hc'
      exact ⟨c, hc, rfl⟩
  | finish result =>
    obtain ⟨t, ht, hs⟩ := Option.bind_eq_some_iff.mp hs
    obtain ⟨-, hs⟩ := Option.ite_none_left_eq_some.mp hs
    cases hs
    obtain ⟨c, st, hc, hcn, hg, hev⟩ | he := he
    · exact Or.inl ⟨c, _, hc, hcn, hg.finish ht result, Stage.wake_of_event hev⟩
    · refine hlater rfl (fun c hc => ⟨c, hc, rfl⟩) ?_ he
      exact resumes_snoc s.log (fun k x he => by cases he) n
  | threadEnd =>
    obtain ⟨t, ht, hs⟩ := Option.bind_eq_some_iff.mp hs
    obtain ⟨hover, hs⟩ := Option.ite_none_right_eq_some.mp hs
    cases hs
    obtain ⟨c, st, hc, hcn, hg, hev⟩ | he := he
    · exact Or.inl ⟨c, st, hc, hcn, hg.threadEnd ht hover, hev⟩
    · exact hlater rfl (fun c hc => ⟨c, hc, rfl⟩) rfl he
  | cancel =>
    cases hs
    obtain ⟨c, st, hc, hcn, hg, hev⟩ | he := he
    · refine Or.inl ⟨{ c with cancelled := true }, _, ?_, hcn, hg.cancel, Stage.wake_of_event hev⟩
      show s.current.map _ = _
      rw [hc]
      rfl
    · refine hlater rfl (fun c' hc' => ?_) rfl he
      obtain ⟨c, hc, rfl⟩ := Option.map_eq_some_iff.mp hc'
      exact ⟨c, hc, rfl⟩
  | pick x =>
    obtain ⟨⟨hx, hfree⟩, hs⟩ := Option.ite_none_right_eq_some.mp hs
    cases hs
    obtain ⟨c, st, hc, hcn, hg, hev⟩ | he := he
    · obtain ⟨st', hst', hg'⟩ := hg.pick hc hx hfree
      exact Or.inl ⟨c, st', hc, hcn, hg', Stage.pick_of_event hev hst'⟩
    · exact hlater rfl (fun c hc => ⟨c, hc, rfl⟩) rfl he
  | run x =>
    obtain ⟨hx, hs⟩ := Option.ite_none_right_eq_some.mp hs
    cases hs
    cases hc : s.current with
    | none =>
      rw [(h.idle hc).hands] at hx
      cases hx
    | some c =>
      obtain ⟨st, hg⟩ := h.going c hc
      obtain ⟨hst, hrun, hg'⟩ := hg.run hc hx
      obtain ⟨d, st', hd, hdn, hgd, hev⟩ | ⟨hn, hother, y, hy, hyev⟩ := he
      · rw [hc] at hd
        cases hd
        have hst' := hgd.rep.run hx
        refine Or.inl ⟨{ c with place := .resumed }, _, ?_, hdn, hg', ?_⟩
        · rw [hrun]
        · rw [hst'.2.2.1] at hev
          exact hev
      · have hne := hother c hc
        rw [hrun]
        refine Or.inr ⟨hn, fun d hd => ?_, y, ?_, hyev⟩
        · cases hd
          exact hne
        · show resumes (s.log ++ [.resumed c.call x]) n = _
          rw [resumes_append, resumes_ne hne, List.append_nil]
          exact hy
  | ret =>
    obtain ⟨c, hc, hs⟩ := Option.bind_eq_some_iff.mp hs
    obtain ⟨hp, hs⟩ := Option.ite_none_right_eq_some.mp hs
    obtain ⟨st, hg⟩ := h.going c hc
    unfold State.ret at hs
    dsimp only at hs
    rw [if_pos hg.started] at hs
    cases hs
    have hlog : ∀ {m : Mark R}, (∀ k x, m ≠ .resumed k x) → resumes (s.log ++ [m]) n = resumes s.log n :=
      fun hm => resumes_snoc s.log hm n
    obtain ⟨d, st', hd, hdn, hgd, hev⟩ | ⟨hn, -, hx⟩ := he
    · rw [hc] at hd
      cases hd
      obtain ⟨e, rfl⟩ := hgd.done.mp hp
      obtain ⟨x, hx, -, hxe⟩ := hgd.after e rfl
      have hnum := hgd.number
      refine Or.inr ⟨?_, fun d hd => ?_, x, (hlog (fun k x he => by cases he)).trans (hdn ▸ hx), hxe.trans (Option.some.inj hev)⟩
      · show n < s.calls
        omega
      · cases hd
    · refine Or.inr ⟨hn, fun d hd => ?_, ?_⟩
      · cases hd
      · obtain ⟨x, hx, hxe⟩ := hx
        exact ⟨x, (hlog (fun k x he => by cases he)).trans hx, hxe⟩

theorem mem_resumes {log : List (Mark R)} {x : ResumeMsg} :
    .resumed n x ∈ log ↔ x ∈ resumes log n := by
  unfold resumes
  rw [List.mem_filterMap]
  constructor
  · intro h
    exact ⟨_, h, if_pos rfl⟩
  · rintro ⟨m, hm, hx⟩
    cases m with
    | resumed k y =>
      change (if k = n then some y else none) = some x at hx
      obtain ⟨hk, hy⟩ := Option.ite_none_right_eq_some.mp hx
      rw [← hk, ← Option.some.inj hy]
      exact hm
    | finished | stray | returned => cases hx

theorem Ending.facts (he : Ending s n event) : (∀ x, .resumed n x ∈ s.log → x.event = event) ∧
    ((∃ x, s.mail.queue ++ s.mail.hands = [x] ∧ x.call = n ∧ x.event = event) ∨
      ∃ x, .resumed n x ∈ s.log) := by
  have hone : ∀ x, resumes s.log n = [x] → x.event = event →
      (∀ x, .resumed n x ∈ s.log → x.event = event) ∧ .resumed n x ∈ s.log := by
    intro x hx hxe
    refine ⟨fun y hy => ?_, mem_resumes.mpr ?_⟩
    · have hy := mem_resumes.mp hy
      rw [hx] at hy
      obtain rfl := List.mem_singleton.mp hy
      exact hxe
    · rw [hx]
      exact List.mem_singleton.mpr rfl
  obtain ⟨c, st, hc, rfl, hg, hev⟩ | ⟨-, -, x, hx, hxe⟩ := he
  · have hrep := hg.rep
    have hbefore : (∀ e, st ≠ .done e) → ∀ x, .resumed c.call x ∈ s.log → x.event = event := by
      intro hd x hx
      have hnone := hg.before (fun hp => by
        obtain ⟨e, he⟩ := hg.done.mp hp
        exact hd e he)
      have hx := mem_resumes.mp hx
      rw [hnone] at hx
      cases hx
    cases st with
    | open_ timed => cases hev
    | posted e =>
      cases hev
      obtain ⟨-, -, -, id, hq, hh⟩ := hrep
      refine ⟨hbefore (fun e he => nomatch he), Or.inl ⟨⟨id, c.co, c.call, event⟩, ?_, rfl, rfl⟩⟩
      rw [hq, hh]
      rfl
    | handed e =>
      cases hev
      obtain ⟨-, -, -, id, hq, hh⟩ := hrep
      refine ⟨hbefore (fun e he => nomatch he), Or.inl ⟨⟨id, c.co, c.call, event⟩, ?_, rfl, rfl⟩⟩
      rw [hq, hh]
      rfl
    | done e =>
      cases hev
      obtain ⟨x, hx, -, hxe⟩ := hg.after event rfl
      exact ⟨(hone x hx hxe).1, Or.inr ⟨x, (hone x hx hxe).2⟩⟩
  · exact ⟨(hone x hx hxe).1, Or.inr ⟨x, (hone x hx hxe).2⟩⟩

/-- **`Cancel` ends a call whose function has not ended and whose time-out is not taken out.** -/
theorem Inv.cancels (h : Inv s) (hc : s.current = some c) (hp : c.place ≠ .resumed)
    (ht : s.thread_ = some { call := c.call }) (hh : ∀ x ∈ s.mail.hands, x.event ≠ .kTimeout) :
    Ending s.cancel c.call .kCancel := by
  obtain ⟨st, hg⟩ := h.going c hc
  refine Or.inl ⟨{ c with cancelled := true }, _, ?_, rfl, hg.cancel, ?_⟩
  · show s.current.map _ = _
    rw [hc]
    rfl
  have hfin : st.event ≠ some .kFinish := by
    intro he
    cases (hg.result he).2 _ ht
  cases st with
  | open_ timed => rfl
  | posted e =>
    cases e with
    | kTimeout => exact absurd rfl hg.rep.1
    | kFinish => exact absurd rfl hfin
    | kCancel => rfl
  | handed e =>
    cases e with
    | kTimeout =>
      obtain ⟨-, -, -, id, -, hhands⟩ := hg.rep
      rw [hhands] at hh
      exact absurd rfl (hh _ (List.mem_singleton.mpr rfl))
    | kFinish => exact absurd rfl hfin
    | kCancel => rfl
  | done e => exact absurd (hg.done.mpr ⟨e, rfl⟩) hp

end

end Coroutine.Calls
