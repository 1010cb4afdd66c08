import LearnDiary.Coroutine.Dns
import LearnDiary.Coroutine.Ending

/-!
# `DNS::Cancel` for coroutines (comm/coroutine/dns.cc)

* `step_async`      the objects only make the steps of `WaitCalls`, and a call finds its object fresh;
* `cancel_ends`     what a `Cancel` does, what a call erases, and that no deleted object is used;
* `cancel_misses`   a `Cancel` that comes too early or too late.
-/

namespace Coroutine.Dns
open Runs

section
variable {s s' : State} {co k : Nat} {r : Request}

theorem setAsync_step {o : Calls.State Ips} {a : Calls.Act Ips} (hf : Calls.Fresh (s.async k) a)
    (ho : Calls.step (s.async k) a = some o) (j : Nat) :
    Function.update s.async k o j = s.async j ∨ ∃ a, Calls.Fresh (s.async j) a ∧
      Calls.step (s.async j) a = some (Function.update s.async k o j) := by
  by_cases hj : j = k
  · subst hj
    refine Or.inr ⟨a, hf, ?_⟩
    rw [Function.update_self]
    exact ho
  · exact Or.inl (Function.update_of_ne hj _ _)

/-- an object stands still or makes a step in which a call finds it fresh -/
theorem step_async {a : Act} (h : Inv s) (hs : step s a = some s') (j : Nat) :
    s'.async j = s.async j ∨
    ∃ b, Calls.Fresh (s.async j) b ∧ Calls.step (s.async j) b = some (s'.async j) := by
  have hobj : ∀ (t t' : State) (k : Nat) (b : Calls.Act Ips), t.async = s.async →
      Calls.Fresh (s.async k) b → t.object k b = some t' →
      t'.async j = s.async j ∨
        ∃ b, Calls.Fresh (s.async j) b ∧ Calls.step (s.async j) b = some (t'.async j) := by
    intro t t' k b ht hf hs
    obtain ⟨o, ho, rfl⟩ := Option.map_eq_some_iff.mp hs
    rw [ht] at ho
    show Function.update t.async k o j = _ ∨ _
    rw [ht]
    obtain hsame | ⟨b, hb, hstep⟩ := setAsync_step hf ho j
    · exact Or.inl hsame
    · refine Or.inr ⟨b, hb, ?_⟩
      show _ = some (Function.update t.async k o j)
      rw [ht]
      exact hstep
  cases a with
  | enter co host millsec b =>
    obtain ⟨-, hs⟩ := Option.ite_none_right_eq_some.mp hs
    cases hs
    left
    unfold State.enter
    split <;> rfl
  | register co =>
    obtain ⟨r, -, hs⟩ := Option.bind_eq_some_iff.mp hs
    obtain ⟨-, hs⟩ := Option.ite_none_right_eq_some.mp hs
    cases hs
    exact Or.inl rfl
  | arm co =>
    obtain ⟨r, hr, hs⟩ := Option.bind_eq_some_iff.mp hs
    obtain ⟨hp, hs⟩ := Option.ite_none_right_eq_some.mp hs
    obtain ⟨t, ht, rfl⟩ := Option.map_eq_some_iff.mp hs
    refine hobj (s.use r.async_func) t r.async_func _ rfl ?_ ht
    rw [h.link.unarmed co r hr (Or.inr hp)]
    exact ⟨rfl, fun _ => rfl, rfl⟩
  | ret co =>
    obtain ⟨r, hr, hs⟩ := Option.bind_eq_some_iff.mp hs
    obtain ⟨hp, hs⟩ := Option.ite_none_right_eq_some.mp hs
    obtain ⟨t, ht, rfl⟩ := Option.map_eq_some_iff.mp hs
    exact hobj s t r.async_func .ret rfl trivial ht
  | leave co =>
    obtain ⟨r, hr, hs⟩ := Option.bind_eq_some_iff.mp hs
    left
    cases hp : r.place with
    | back ips =>
      rw [hp] at hs
      obtain ⟨-, hs⟩ := Option.ite_none_right_eq_some.mp hs
      cases hs
      rfl
    | entered | registered | inside =>
      rw [hp] at hs
      cases hs
  | yield k => exact hobj s s' k .yield rfl trivial hs
  | finish k ips => exact hobj s s' k (.finish ips) rfl trivial hs
  | threadEnd k => exact hobj s s' k .threadEnd rfl trivial hs
  | pick k x =>
    obtain ⟨-, hs⟩ := Option.ite_none_right_eq_some.mp hs
    exact hobj s s' k (.pick x) rfl trivial hs
  | run k x => exact hobj s s' k (.run x) rfl trivial hs
  | cancelHost host =>
    obtain ⟨-, hs⟩ := Option.ite_none_right_eq_some.mp hs
    cases hs
    exact Or.inl rfl
  | cancelBreaker b =>
    obtain ⟨-, hs⟩ := Option.ite_none_right_eq_some.mp hs
    cases hs
    exact Or.inl rfl
  | visit =>
    obtain ⟨k, rest, -, hs⟩ := step_visit hs
    exact hobj { s.use k with cancelling := some rest } s' k .cancel rfl trivial hs
  | unlock =>
    obtain ⟨-, hs⟩ := Option.ite_none_right_eq_some.mp hs
    cases hs
    exact Or.inl rfl

/-- request `k` waits in its `operator ()`: its function has not ended, and its time-out is not taken
out -/
def Waits (s : State) (k : Nat) : Prop :=
  ∃ c, (s.async k).current = some c ∧ c.place ≠ .resumed ∧
    (s.async k).thread_ = some { call := c.call } ∧
    ∀ x ∈ (s.async k).mail.hands, x.event ≠ .kTimeout

/-- request `k` has been resumed by `Cancel`, or that is on its way, and by nothing else -/
def Cancelled (s : State) (k : Nat) : Prop :=
  (∀ x, .resumed 0 x ∈ (s.async k).log → x.event = .kCancel) ∧
  ((∃ x, (s.async k).mail.queue ++ (s.async k).mail.hands = [x] ∧ x.event = .kCancel) ∨
    ∃ x, .resumed 0 x ∈ (s.async k).log)

structure Safe (s : State) : Prop where
  fault : s.fault = false
  alone : ∀ k x, .stray x ∉ (s.async k).log
  own : ∀ co s', step s (.leave co) = some s' → ∃ r, s.cos co = some r ∧
    r.async_func ∈ s.dnsinfo_vec_.map DnsInfo.async_func ∧
    s'.dnsinfo_vec_ = s.dnsinfo_vec_.filter fun e => e.async_func != r.async_func
  ends : ∀ k rest, s.cancelling = some (k :: rest) → ∃ s', step s .visit = some s' ∧
    (∀ j, j ≠ k → s'.async j = s.async j) ∧
    (Waits s k → ∀ t, AnyRun step s' t → Cancelled t k)

theorem Inv.own (h : Inv s) (hs : step s (.leave co) = some s') : ∃ r, s.cos co = some r ∧
    r.async_func ∈ s.dnsinfo_vec_.map DnsInfo.async_func ∧
    s'.dnsinfo_vec_ = s.dnsinfo_vec_.filter fun e => e.async_func != r.async_func := by
  obtain ⟨r, hr, hs⟩ := Option.bind_eq_some_iff.mp hs
  cases hp : r.place with
  | back ips =>
    rw [hp] at hs
    obtain ⟨-, hs⟩ := Option.ite_none_right_eq_some.mp hs
    cases hs
    refine ⟨r, hr, h.table.mem co r hr ?_, h.erases hr hp⟩
    rw [hp]
    exact fun he => nomatch he
  | entered | registered | inside =>
    rw [hp] at hs
    cases hs

theorem Inv.ends (h : Inv s) {rest : List Nat} (hc : s.cancelling = some (k :: rest)) :
    ∃ s', step s .visit = some s' ∧ (∀ j, j ≠ k → s'.async j = s.async j) ∧
      (Waits s k → ∀ t, AnyRun step s' t → Cancelled t k) := by
  have hstep : step s .visit = some (({ s.use k with cancelling := some rest } : State).setAsync k
      (s.async k).cancel) := by
    simp only [step, hc]
    rfl
  refine ⟨_, hstep, fun j hj => Function.update_of_ne hj _ _, fun hw t ht => ?_⟩
  obtain ⟨c, hcur, hp, hthread, hhands⟩ := hw
  obtain ⟨hobj, hcalls⟩ := h.link.objs k
  have hnum : c.call = 0 := by
    obtain ⟨st, hg⟩ := hobj.going c hcur
    have := hg.number
    omega
  have hfirst := hobj.cancels hcur hp hthread hhands
  rw [hnum] at hfirst
  have hrun : Inv t ∧ Calls.Ending (t.async k) 0 .kCancel := by
    refine Run.keep (P := fun t => Inv t ∧ Calls.Ending (t.async k) 0 .kCancel) ht ?_
      ⟨step_inv h hstep, ?_⟩
    · rintro t a t' ⟨hi, he⟩ - hs
      refine ⟨step_inv hi hs, ?_⟩
      obtain hsame | ⟨b, hb, hb'⟩ := step_async hi hs k
      · rw [hsame]
        exact he
      · exact he.step (hi.link.objs k).1 hb hb'
    · show Calls.Ending (Function.update s.async k (s.async k).cancel k) 0 .kCancel
      rw [Function.update_self]
      exact hfirst
  obtain ⟨hev, hway⟩ := hrun.2.facts
  refine ⟨hev, ?_⟩
  obtain ⟨x, hx, -, hxe⟩ | hx := hway
  · exact Or.inl ⟨x, hx, hxe⟩
  · exact Or.inr hx

/-- **A `Cancel` ends the waits it comes to, and no others; a call erases its own entry, and no object
is used after its deletion.** -/
theorem cancel_ends (h : AnyRun step {} s) : Safe s := by
  have hinv : Inv s := h.keep (fun _ _ _ hi _ hs => step_inv hi hs) Inv.init
  exact ⟨hinv.table.fault, fun k => (hinv.link.objs k).1.past.alone, fun _ _ => hinv.own,
    fun _ _ => hinv.ends⟩

end

/-! ## examples -/

/-- a call of coroutine 0 without breaker that waits, and a `Cancel` that has come -/
def waiting : List Act := [.enter 0 (ascii "a") 3000 none, .register 0, .arm 0, .yield 0,
  .cancelHost []]

theorem cancel_ends_waiting : ∃ s s', exec step {} waiting = some s ∧ step s .visit = some s' ∧
    Cancelled s' 0 := by
  obtain ⟨s, hs, hc, hw⟩ : ∃ s, exec step {} waiting = some s ∧ s.cancelling = some [0] ∧
      Waits s 0 := by
    refine ⟨_, rfl, rfl, ⟨0, 0, 3000, .value, true, .waiting, false⟩, rfl, ?_, rfl, ?_⟩
    · exact fun he => nomatch he
    · intro x hx
      cases hx
  obtain ⟨s', hs', -, hcan⟩ := (cancel_ends (Run.of_exec hs)).ends 0 [] hc
  exact ⟨s, s', hs, hs', hcan hw s' Relation.ReflTransGen.refl⟩

/-- a `Cancel` comes to a request with the property and it is only resumed by that -/
def CancelEnds (P : State → Nat → Prop) : Prop :=
  ∀ s s' t k rest x, AnyRun step {} s → s.cancelling = some (k :: rest) → P s k →
    step s .visit = some s' → AnyRun step s' t → .resumed 0 x ∈ (t.async k).log → x.event = .kCancel

/-- registered, with its `operator ()` to come -/
def Early (s : State) (k : Nat) : Prop :=
  ∃ co r, s.cos co = some r ∧ r.async_func = k ∧ r.place = .registered

/-- waiting, whatever has come -/
def Late (s : State) (k : Nat) : Prop := ∃ c, (s.async k).current = some c ∧ c.place = .waiting

def early : List Act := [.enter 0 (ascii "a") 3000 none, .register 0, .cancelHost []]
def early' : List Act := [.unlock, .arm 0, .yield 0, .finish 0 [],
  .pick 0 ⟨1, 0, 0, .kFinish⟩, .run 0 ⟨1, 0, 0, .kFinish⟩]
def late : List Act := [.enter 0 (ascii "a") 3000 none, .register 0, .arm 0, .yield 0, .finish 0 [],
  .cancelHost []]
def late' : List Act := [.pick 0 ⟨1, 0, 0, .kFinish⟩, .run 0 ⟨1, 0, 0, .kFinish⟩]

theorem cancel_misses : ¬ CancelEnds Early ∧ ¬ CancelEnds Late := by
  constructor
  · intro h
    obtain ⟨s, s', t, hs, hc, hp, hv, ht, hx⟩ : ∃ s s' t, exec step {} early = some s ∧
        s.cancelling = some [0] ∧ Early s 0 ∧ step s .visit = some s' ∧
        exec step s' early' = some t ∧ .resumed 0 ⟨1, 0, 0, .kFinish⟩ ∈ (t.async 0).log := by
      refine ⟨_, _, _, rfl, rfl, ⟨0, _, rfl, rfl, rfl⟩, rfl, rfl, ?_⟩
      exact List.Mem.tail _ (List.Mem.head _)
    cases h s s' t 0 [] _ (Run.of_exec hs) hc hp hv (Run.of_exec ht) hx
  · intro h
    obtain ⟨s, s', t, hs, hc, hp, hv, ht, hx⟩ : ∃ s s' t, exec step {} late = some s ∧
        s.cancelling = some [0] ∧ Late s 0 ∧ step s .visit = some s' ∧
        exec step s' late' = some t ∧ .resumed 0 ⟨1, 0, 0, .kFinish⟩ ∈ (t.async 0).log := by
      refine ⟨_, _, _, rfl, rfl, ⟨_, rfl, rfl⟩, rfl, rfl, ?_⟩
      exact List.Mem.tail _ (List.Mem.head _)
    cases h s s' t 0 [] _ (Run.of_exec hs) hc hp hv (Run.of_exec ht) hx

end Coroutine.Dns
