import LearnDiary.Base.Bytes
import LearnDiary.Coroutine.WaitCalls
import Mathlib.Data.List.Nodup

/-!
# The DNS for coroutines (comm/coroutine/dns.cc)

Every call of `GetHostByName` makes a `WaitThread`, numbers it here, registers it under `gs_mutex` and
waits on it; the two `Cancel` go through the registered ones with `gs_mutex` held, and what else
happens comes between.  A `WaitThread` is the machine of `WaitCalls`.

A resume message that finds its coroutine elsewhere only leaves a mark; none does.

* `Table`, `Link`   what the calls, the vector and the objects know of each other;
* `Inv.erases`      a call erases its own entry;
* `step_inv`        kept by every step.
-/

namespace Coroutine.Dns
open Runs

abbrev Ips := List Bytes

structure DnsInfo where
  host_name : Bytes
  breaker : Option Nat
  async_func : Nat
deriving DecidableEq

/-- where a call of `GetHostByName` is: it has its `WaitThread`; it is registered; in `operator ()`;
back from there with the addresses -/
inductive Where where
  | entered
  | registered
  | inside
  | back (ips : Ips)
deriving DecidableEq

structure Request where
  async_func : Nat
  _host_name : Bytes
  millsec : Int
  _breaker : Option Nat
  place : Where := .entered
deriving DecidableEq

structure State where
  dnsinfo_vec_ : List DnsInfo := []
  /-- the objects, by their numbers, and which are not deleted -/
  async : Nat → Calls.State Ips := fun _ => {}
  live : Nat → Bool := fun _ => false
  next : Nat := 0
  isbreak : Nat → Bool := fun _ => false
  /-- the call that a coroutine is in -/
  cos : Nat → Option Request := fun _ => none
  /-- the objects a `Cancel` still has to go to; `gs_mutex` is held meanwhile -/
  cancelling : Option (List Nat) := none
  /-- what calls of coroutines have returned -/
  returned : List (Nat × Bool × Ips) := []
  /-- a deleted object was used -/
  fault : Bool := false

inductive Act where
  | enter (co : Nat) (_host_name : Bytes) (millsec : Int) (_breaker : Option Nat)
  | register (co : Nat)
  | arm (co : Nat)
  | ret (co : Nat)
  | leave (co : Nat)
  | yield (k : Nat)
  | finish (k : Nat) (ips : Ips)
  | threadEnd (k : Nat)
  | pick (k : Nat) (x : ResumeMsg)
  | run (k : Nat) (x : ResumeMsg)
  | cancelHost (_host_name : Bytes)
  | cancelBreaker (_breaker : Nat)
  | visit
  | unlock

namespace State

/-- access to the object `k` -/
def use (s : State) (k : Nat) : State := { s with fault := s.fault || !s.live k }

def setAsync (s : State) (k : Nat) (o : Calls.State Ips) : State :=
  { s with async := Function.update s.async k o }

def setPlace (s : State) (co : Nat) (r : Request) (place : Where) : State :=
  { s with cos := Function.update s.cos co (some { r with place }) }

/-- a step of the object `k` -/
def object (s : State) (k : Nat) (a : Calls.Act Ips) : Option State :=
  (Calls.step (s.async k) a).map (s.setAsync k)

/-- up to `new WaitThread` -/
def enter (s : State) (co : Nat) (_host_name : Bytes) (millsec : Int) (_breaker : Option Nat) :
    State :=
  if _host_name = [] ∨ _breaker.any s.isbreak then
    { s with returned := s.returned ++ [(co, false, [])] }
  else
    { s with
      cos := Function.update s.cos co (some { async_func := s.next, _host_name, millsec, _breaker })
      live := Function.update s.live s.next true
      next := s.next + 1 }

/-- the first critical section -/
def register (s : State) (co : Nat) (r : Request) : State :=
  let e : DnsInfo := ⟨r._host_name, r._breaker, r.async_func⟩
  let s : State := { s with dnsinfo_vec_ := s.dnsinfo_vec_ ++ [e] }
  s.setPlace co r .registered

/-- the second: erase, delete and return -/
def leave (s : State) (co : Nat) (r : Request) (ips : Ips) : State :=
  { s with
    fault := s.fault || s.dnsinfo_vec_.any fun e => !s.live e.async_func
    dnsinfo_vec_ := s.dnsinfo_vec_.filter fun e =>
      (s.async e.async_func).wrapper_.wrapper != some co
    live := Function.update s.live r.async_func false
    cos := Function.update s.cos co none
    returned := s.returned ++ [(co, ips != [], ips)] }

/-- the loop of a coroutine is not under it -/
def loopFree (s : State) (co : Nat) : Bool :=
  (s.cos co).all fun r =>
    r.place == .inside && (s.async r.async_func).current.any fun c => c.place == .waiting

/-- `Cancel` takes `gs_mutex` -/
def cancel (s : State) (p : DnsInfo → Bool) : Option State :=
  if s.cancelling = none then
    some { s with cancelling := some ((s.dnsinfo_vec_.filter p).map DnsInfo.async_func) }
  else none

end State

def step (s : State) : Act → Option State
  | .enter co host millsec b => if s.cos co = none then some (s.enter co host millsec b) else none
  | .register co => (s.cos co).bind fun r =>
    if r.place = .entered ∧ s.cancelling = none then some (s.register co r) else none
  | .arm co => (s.cos co).bind fun r =>
    if r.place = .registered then
      ((s.use r.async_func).object r.async_func (.call co r.millsec .value)).map fun t =>
        t.setPlace co r .inside
    else none
  | .ret co => (s.cos co).bind fun r =>
    if r.place = .inside then
      (s.object r.async_func .ret).map fun t =>
        t.setPlace co r (.back (((s.async r.async_func).results 0).getD []))
    else none
  | .leave co => (s.cos co).bind fun r =>
    match r.place with
    | .back ips => if s.cancelling = none then some (s.leave co r ips) else none
    | _ => none
  | .yield k => s.object k .yield
  | .finish k ips => s.object k (.finish ips)
  | .threadEnd k => s.object k .threadEnd
  | .pick k x => if s.loopFree x.co then s.object k (.pick x) else none
  | .run k x => s.object k (.run x)
  | .cancelHost host => s.cancel fun e => host == [] || e.host_name == host
  | .cancelBreaker b =>
    { s with isbreak := Function.update s.isbreak b true }.cancel fun e => e.breaker == some b
  | .visit =>
    match s.cancelling with
    | some (k :: rest) => ({ s.use k with cancelling := some rest }).object k .cancel
    | _ => none
  | .unlock => if s.cancelling = some [] then some { s with cancelling := none } else none

/-! ## what is known of the calls -/

structure Table (s : State) : Prop where
  fault : s.fault = false
  number : ∀ co r, s.cos co = some r → r.async_func < s.next ∧ s.live r.async_func = true
  inj : ∀ co co' r r', s.cos co = some r → s.cos co' = some r' → r.async_func = r'.async_func →
    co = co'
  vec : ∀ e ∈ s.dnsinfo_vec_, ∃ co r, s.cos co = some r ∧ r.place ≠ .entered ∧
    e = ⟨r._host_name, r._breaker, r.async_func⟩
  mem : ∀ co r, s.cos co = some r → r.place ≠ .entered →
    r.async_func ∈ s.dnsinfo_vec_.map DnsInfo.async_func
  nodup : (s.dnsinfo_vec_.map DnsInfo.async_func).Nodup
  visits : ∀ l, s.cancelling = some l → ∀ k ∈ l, k ∈ s.dnsinfo_vec_.map DnsInfo.async_func

structure Link (s : State) : Prop where
  objs : ∀ k, Calls.Inv (s.async k) ∧ (s.async k).calls ≤ 1
  fresh : ∀ k, s.next ≤ k → s.async k = {}
  unarmed : ∀ co r, s.cos co = some r → r.place = .entered ∨ r.place = .registered →
    s.async r.async_func = {}
  inside : ∀ co r, s.cos co = some r → r.place = .inside →
    ∃ c, (s.async r.async_func).current = some c ∧ c.co = co
  current : ∀ k c, (s.async k).current = some c →
    ∃ r, s.cos c.co = some r ∧ r.async_func = k ∧ r.place = .inside
  wrapper : ∀ co r, s.cos co = some r → r.place ≠ .entered → r.place ≠ .registered →
    (s.async r.async_func).wrapper_.wrapper = some co

structure Inv (s : State) : Prop where
  table : Table s
  link : Link s

section
variable {s s' : State} {co k : Nat} {r : Request}

/-- the steps of an object that neither begin nor end a call -/
def Inner : Calls.Act Ips → Prop
  | .call _ _ _ | .ret => False
  | _ => True

theorem wake_wrapper (w : Wrapper_) (m : Mail) (n : Nat) (event : Event) :
    (w.wake m n event).1.wrapper = w.wrapper := by
  unfold Wrapper_.wake
  cases h : w.wrapper with
  | none => exact h
  | some co =>
    dsimp only
    split
    · exact h
    · cases w.message_timeout with
      | none => rfl
      | some id =>
        dsimp only
        split
        · rfl
        · exact h

/-- what such a step leaves -/
structure Stays (o o' : Calls.State Ips) : Prop where
  current : o'.current.map Calls.Call.co = o.current.map Calls.Call.co
  wrapper : o'.wrapper_.wrapper = o.wrapper_.wrapper
  calls : o'.calls = o.calls
  blank : o = {} → o' = {}

theorem inner_stays {o o' : Calls.State Ips} {a : Calls.Act Ips} (ha : Inner a)
    (h : Calls.step o a = some o') : Stays o o' := by
  cases a with
  | call _ _ _ => exact ha.elim
  | ret => exact ha.elim
  | yield =>
    obtain ⟨c, hc, h⟩ := Option.bind_eq_some_iff.mp h
    obtain ⟨-, h⟩ := Option.ite_none_right_eq_some.mp h
    cases h
    refine ⟨?_, rfl, rfl, fun ho => ?_⟩
    · rw [hc]
      rfl
    · rw [ho] at hc
      cases hc
  | finish result =>
    obtain ⟨t, ht, h⟩ := Option.bind_eq_some_iff.mp h
    obtain ⟨-, h⟩ := Option.ite_none_left_eq_some.mp h
    cases h
    refine ⟨rfl, wake_wrapper _ _ _ _, rfl, fun ho => ?_⟩
    rw [ho] at ht
    cases ht
  | threadEnd =>
    obtain ⟨t, ht, h⟩ := Option.bind_eq_some_iff.mp h
    obtain ⟨-, h⟩ := Option.ite_none_right_eq_some.mp h
    cases h
    refine ⟨rfl, rfl, rfl, fun ho => ?_⟩
    rw [ho] at ht
    cases ht
  | cancel =>
    cases h
    refine ⟨?_, wake_wrapper _ _ _ _, rfl, fun ho => ?_⟩
    · show (o.current.map _).map Calls.Call.co = _
      rw [Option.map_map]
      rfl
    · rw [ho]
      rfl
  | pick x =>
    obtain ⟨⟨hx, -⟩, h⟩ := Option.ite_none_right_eq_some.mp h
    cases h
    refine ⟨rfl, rfl, rfl, fun ho => ?_⟩
    rw [ho] at hx
    cases hx
  | run x =>
    obtain ⟨hx, h⟩ := Option.ite_none_right_eq_some.mp h
    cases h
    have hblank : o ≠ {} := by
      intro ho
      rw [ho] at hx
      cases hx
    unfold Calls.State.run
    dsimp only
    split
    · rename_i c hc
      refine ⟨?_, rfl, rfl, fun ho => absurd ho hblank⟩
      rw [(Option.filter_eq_some_iff.mp hc).1]
      rfl
    · exact ⟨rfl, rfl, rfl, fun ho => absurd ho hblank⟩

theorem Table.same (h : Table s) (hvec : s'.dnsinfo_vec_ = s.dnsinfo_vec_) (hcos : s'.cos = s.cos)
    (hlive : s'.live = s.live) (hnext : s'.next = s.next) (hfault : s'.fault = false)
    (hcan : ∀ l, s'.cancelling = some l → ∀ k ∈ l, k ∈ s.dnsinfo_vec_.map DnsInfo.async_func) :
    Table s' := by
  constructor
  · exact hfault
  · rw [hcos, hlive, hnext]
    exact h.number
  · rw [hcos]
    exact h.inj
  · rw [hvec, hcos]
    exact h.vec
  · rw [hvec, hcos]
    exact h.mem
  · rw [hvec]
    exact h.nodup
  · rw [hvec]
    exact hcan

theorem Table.async (h : Table s) (k : Nat) (o : Calls.State Ips) : Table (s.setAsync k o) :=
  h.same rfl rfl rfl rfl h.fault h.visits

theorem Link.same (h : Link s) (hcos : s'.cos = s.cos) (hasync : s'.async = s.async)
    (hnext : s'.next = s.next) : Link s' := by
  constructor
  · rw [hasync]
    exact h.objs
  · rw [hasync, hnext]
    exact h.fresh
  · rw [hasync, hcos]
    exact h.unarmed
  · rw [hasync, hcos]
    exact h.inside
  · rw [hasync, hcos]
    exact h.current
  · rw [hasync, hcos]
    exact h.wrapper

theorem Link.inner (h : Link s) {o : Calls.State Ips} {a : Calls.Act Ips} (ha : Inner a)
    (ho : Calls.step (s.async k) a = some o) : Link (s.setAsync k o) := by
  have hst := inner_stays ha ho
  -- what holds of every object under such a step
  have hall : ∀ P : Nat → Calls.State Ips → Prop, P k o → (∀ j, P j (s.async j)) →
      ∀ j, P j (Function.update s.async k o j) := by
    intro P hk hP j
    by_cases hj : j = k
    · rw [hj, Function.update_self]
      exact hk
    · rw [Function.update_of_ne hj]
      exact hP j
  have hcur : ∀ c, o.current = some c → ∃ c', (s.async k).current = some c' ∧ c'.co = c.co := by
    intro c hc
    have heq : (s.async k).current.map Calls.Call.co = some c.co := by
      rw [← hst.current, hc]
      rfl
    obtain ⟨c', hc', hco⟩ := Option.map_eq_some_iff.mp heq
    exact ⟨c', hc', hco⟩
  have hcur' : ∀ c, (s.async k).current = some c → ∃ c', o.current = some c' ∧ c'.co = c.co := by
    intro c hc
    have heq : o.current.map Calls.Call.co = some c.co := by
      rw [hst.current, hc]
      rfl
    obtain ⟨c', hc', hco⟩ := Option.map_eq_some_iff.mp heq
    exact ⟨c', hc', hco⟩
  constructor
  · refine hall (fun _ o => Calls.Inv o ∧ o.calls ≤ 1) ⟨?_, ?_⟩ h.objs
    · refine Calls.step_inv (h.objs k).1 ?_ ho
      cases a with
      | call _ _ _ => exact ha.elim
      | _ => trivial
    · rw [hst.calls]
      exact (h.objs k).2
  · refine hall (fun j o => s.next ≤ j → o = {}) ?_ h.fresh
    exact fun hk => hst.blank (h.fresh k hk)
  · intro co r hr hp
    have hblank := h.unarmed co r hr hp
    refine hall (fun j o => s.async j = {} → o = {}) hst.blank (fun _ hj => hj) _ hblank
  · intro co r hr hp
    obtain ⟨c, hc, hco⟩ := h.inside co r hr hp
    refine hall (fun j o => ∀ c, (s.async j).current = some c → c.co = co →
      ∃ c, o.current = some c ∧ c.co = co) ?_ ?_ _ c hc hco
    · intro c hc hco
      obtain ⟨c', hc', heq⟩ := hcur' c hc
      exact ⟨c', hc', heq.trans hco⟩
    · exact fun j c hc hco => ⟨c, hc, hco⟩
  · refine hall (fun j o => ∀ c, o.current = some c → ∃ r, s.cos c.co = some r ∧
      r.async_func = j ∧ r.place = .inside) ?_ h.current
    intro c hc
    obtain ⟨c', hc', hco⟩ := hcur c hc
    obtain ⟨r, hr⟩ := h.current k c' hc'
    rw [hco] at hr
    exact ⟨r, hr⟩
  · intro co r hr hp hp'
    have hw := h.wrapper co r hr hp hp'
    refine hall (fun j o => (s.async j).wrapper_.wrapper = some co → o.wrapper_.wrapper = some co)
      ?_ (fun _ hj => hj) _ hw
    intro hk
    rw [hst.wrapper]
    exact hk

theorem Inv.inner (h : Inv s) {a : Calls.Act Ips} (ha : Inner a) (hs : s.object k a = some s') :
    Inv s' := by
  obtain ⟨o, ho, rfl⟩ := Option.map_eq_some_iff.mp hs
  exact ⟨h.table.async k o, h.link.inner ha ho⟩

/-! ## the steps of `GetHostByName` and `Cancel` -/

theorem Inv.enter (h : Inv s) (hco : s.cos co = none) (host : Bytes) (millsec : Int)
    (b : Option Nat) : Inv (s.enter co host millsec b) := by
  unfold State.enter
  split
  · exact ⟨h.table.same rfl rfl rfl rfl h.table.fault h.table.visits, h.link.same rfl rfl rfl⟩
  have hold : ∀ co' r, Function.update s.cos co (some ⟨s.next, host, millsec, b, .entered⟩) co' =
      some r → (co' = co ∧ r = ⟨s.next, host, millsec, b, .entered⟩) ∨ s.cos co' = some r := by
    intro co' r hr
    by_cases hc : co' = co
    · rw [hc, Function.update_self] at hr
      exact Or.inl ⟨hc, (Option.some.inj hr).symm⟩
    · rw [Function.update_of_ne hc] at hr
      exact Or.inr hr
  have hkeep : ∀ co' r, s.cos co' = some r →
      Function.update s.cos co (some ⟨s.next, host, millsec, b, .entered⟩) co' = some r := by
    intro co' r hr
    rw [Function.update_of_ne]
    · exact hr
    · intro hc
      rw [hc, hco] at hr
      cases hr
  constructor
  · constructor
    · exact h.table.fault
    · intro co' r hr
      obtain ⟨-, rfl⟩ | hr := hold co' r hr
      · exact ⟨Nat.lt_succ_self _, Function.update_self _ _ _⟩
      · obtain ⟨hlt, hlive⟩ := h.table.number co' r hr
        exact ⟨Nat.lt_succ_of_lt hlt, (Function.update_of_ne (Nat.ne_of_lt hlt) _ _).trans hlive⟩
    · intro c c' r r' hr hr' heq
      obtain ⟨hc, rfl⟩ | hr₀ := hold c r hr
      · obtain ⟨hc', -⟩ | hr₀' := hold c' r' hr'
        · exact hc.trans hc'.symm
        · exact absurd heq.symm (Nat.ne_of_lt (h.table.number c' r' hr₀').1)
      · obtain ⟨-, rfl⟩ | hr₀' := hold c' r' hr'
        · exact absurd heq (Nat.ne_of_lt (h.table.number c r hr₀).1)
        · exact h.table.inj c c' r r' hr₀ hr₀' heq
    · intro e he
      obtain ⟨c, r, hr, hp, heq⟩ := h.table.vec e he
      exact ⟨c, r, hkeep c r hr, hp, heq⟩
    · intro c r hr hp
      obtain ⟨-, rfl⟩ | hr := hold c r hr
      · exact absurd rfl hp
      · exact h.table.mem c r hr hp
    · exact h.table.nodup
    · exact h.table.visits
  · constructor
    · exact h.link.objs
    · exact fun k hk => h.link.fresh k (Nat.le_of_succ_le hk)
    · intro c r hr hp
      obtain ⟨-, rfl⟩ | hr := hold c r hr
      · exact h.link.fresh _ (Nat.le_refl _)
      · exact h.link.unarmed c r hr hp
    · intro c r hr hp
      obtain ⟨-, rfl⟩ | hr := hold c r hr
      · cases hp
      · exact h.link.inside c r hr hp
    · intro k c hc
      obtain ⟨r, hr, hrest⟩ := h.link.current k c hc
      exact ⟨r, hkeep c.co r hr, hrest⟩
    · intro c r hr hp hp'
      obtain ⟨-, rfl⟩ | hr := hold c r hr
      · exact absurd rfl hp
      · exact h.link.wrapper c r hr hp hp'

theorem setPlace_cos {place : Where} {co' : Nat} {r' : Request}
    (h : Function.update s.cos co (some { r with place }) co' = some r') :
    (co' = co ∧ r' = { r with place }) ∨ (co' ≠ co ∧ s.cos co' = some r') := by
  by_cases hc : co' = co
  · rw [hc, Function.update_self] at h
    exact Or.inl ⟨hc, (Option.some.inj h).symm⟩
  · rw [Function.update_of_ne hc] at h
    exact Or.inr ⟨hc, h⟩

theorem Table.number_moved (h : Table s) (hr : s.cos co = some r) {place : Where} {c : Nat}
    {r' : Request} (hr' : Function.update s.cos co (some { r with place }) c = some r') :
    r'.async_func < s.next ∧ s.live r'.async_func = true := by
  obtain ⟨-, rfl⟩ | ⟨-, hr'⟩ := setPlace_cos hr'
  · exact h.number co r hr
  · exact h.number c r' hr'

theorem Table.inj_moved (h : Table s) (hr : s.cos co = some r) {place : Where} {c c' : Nat}
    {r₁ r₂ : Request} (h₁ : Function.update s.cos co (some { r with place }) c = some r₁)
    (h₂ : Function.update s.cos co (some { r with place }) c' = some r₂)
    (heq : r₁.async_func = r₂.async_func) : c = c' := by
  obtain ⟨hc, rfl⟩ | ⟨-, h₁⟩ := setPlace_cos h₁
  · obtain ⟨hc', -⟩ | ⟨-, h₂⟩ := setPlace_cos h₂
    · exact hc.trans hc'.symm
    · exact hc.trans (h.inj co c' r r₂ hr h₂ heq)
  · obtain ⟨hc', rfl⟩ | ⟨-, h₂⟩ := setPlace_cos h₂
    · exact (h.inj c co r₁ r h₁ hr heq).trans hc'.symm
    · exact h.inj c c' r₁ r₂ h₁ h₂ heq

theorem Table.setPlace (h : Table s) (hr : s.cos co = some r) (hp : r.place ≠ .entered)
    {place : Where} (hp' : place ≠ .entered) : Table (s.setPlace co r place) := by
  constructor
  · exact h.fault
  · exact fun c r' hr' => h.number_moved hr hr'
  · exact fun c c' r₁ r₂ h₁ h₂ heq => h.inj_moved hr h₁ h₂ heq
  · intro e he
    obtain ⟨c, r', hr', hpl, heq⟩ := h.vec e he
    by_cases hc : c = co
    · subst hc
      rw [hr] at hr'
      cases hr'
      exact ⟨c, _, Function.update_self _ _ _, hp', heq⟩
    · exact ⟨c, r', (Function.update_of_ne hc _ _).trans hr', hpl, heq⟩
  · intro c r' hr' hpl
    obtain ⟨-, rfl⟩ | ⟨-, hr'⟩ := setPlace_cos hr'
    · exact h.mem co r hr hp
    · exact h.mem c r' hr' hpl
  · exact h.nodup
  · exact h.visits

theorem Inv.register (h : Inv s) (hr : s.cos co = some r) (hp : r.place = .entered)
    (hfree : s.cancelling = none) : Inv (s.register co r) := by
  have hnew : r.async_func ∉ s.dnsinfo_vec_.map DnsInfo.async_func := by
    intro hmem
    obtain ⟨e, he, hek⟩ := List.mem_map.mp hmem
    obtain ⟨c, r', hr', hp', rfl⟩ := h.table.vec e he
    have hc := h.table.inj c co r' r hr' hr hek
    rw [hc, hr] at hr'
    cases hr'
    exact hp' hp
  constructor
  · constructor
    · exact h.table.fault
    · exact fun c r' hr' => h.table.number_moved hr hr'
    · exact fun c c' r₁ r₂ h₁ h₂ heq => h.table.inj_moved hr h₁ h₂ heq
    · intro e he
      rcases List.mem_append.mp he with he | he
      · obtain ⟨c, r', hr', hpl, heq⟩ := h.table.vec e he
        refine ⟨c, r', (Function.update_of_ne ?_ _ _).trans hr', hpl, heq⟩
        intro hc
        rw [hc, hr] at hr'
        cases hr'
        exact hpl hp
      · refine ⟨co, _, Function.update_self _ _ _, ?_, List.mem_singleton.mp he⟩
        exact fun hp => nomatch hp
    · intro c r' hr' hpl
      show r'.async_func ∈ (s.dnsinfo_vec_ ++ [_]).map DnsInfo.async_func
      rw [List.map_append]
      obtain ⟨-, rfl⟩ | ⟨-, hr'⟩ := setPlace_cos hr'
      · exact List.mem_append_right _ (List.mem_singleton.mpr rfl)
      · exact List.mem_append_left _ (h.table.mem c r' hr' hpl)
    · show ((s.dnsinfo_vec_ ++ [_]).map DnsInfo.async_func).Nodup
      rw [List.map_append]
      refine List.nodup_append.mpr ⟨h.table.nodup, List.nodup_singleton _, ?_⟩
      intro k hk k' hk' heq
      rw [heq, List.mem_singleton.mp hk'] at hk
      exact hnew hk
    · intro l hl
      have hl : s.cancelling = some l := hl
      rw [hfree] at hl
      cases hl
  · constructor
    · exact h.link.objs
    · exact h.link.fresh
    · intro c r' hr' hpl
      obtain ⟨-, rfl⟩ | ⟨-, hr'⟩ := setPlace_cos hr'
      · exact h.link.unarmed co r hr (Or.inl hp)
      · exact h.link.unarmed c r' hr' hpl
    · intro c r' hr' hpl
      obtain ⟨-, rfl⟩ | ⟨-, hr'⟩ := setPlace_cos hr'
      · cases hpl
      · exact h.link.inside c r' hr' hpl
    · intro k c hc
      obtain ⟨r', hr', hk, hpl⟩ := h.link.current k c hc
      refine ⟨r', (Function.update_of_ne ?_ _ _).trans hr', hk, hpl⟩
      intro hcc
      rw [hcc, hr] at hr'
      cases hr'
      rw [hp] at hpl
      cases hpl
    · intro c r' hr' hpl hpl'
      obtain ⟨-, rfl⟩ | ⟨-, hr'⟩ := setPlace_cos hr'
      · exact absurd rfl hpl'
      · exact h.link.wrapper c r' hr' hpl hpl'

theorem Link.moved (place : Where) (h : Link s) (ht : Table s) (hr : s.cos co = some r)
    {o : Calls.State Ips} (hinv : Calls.Inv o ∧ o.calls ≤ 1) (hreg : place ≠ .registered)
    (hent : place ≠ .entered)
    (hin : place = .inside → ∃ c, o.current = some c ∧ c.co = co)
    (hcur : ∀ c, o.current = some c → c.co = co ∧ place = .inside)
    (hw : o.wrapper_.wrapper = some co) (hs : s'.async = Function.update s.async r.async_func o)
    (hs' : s'.cos = Function.update s.cos co (some { r with place })) (hnext : s'.next = s.next) :
    Link s' := by
  have hother : ∀ c r', c ≠ co → s.cos c = some r' → s'.async r'.async_func = s.async r'.async_func := by
    intro c r' hc hr'
    rw [hs, Function.update_of_ne]
    exact fun heq => hc (ht.inj c co r' r hr' hr heq)
  have hself : s'.async r.async_func = o := by
    rw [hs, Function.update_self]
  constructor
  · intro j
    by_cases hj : j = r.async_func
    · rw [hj, hself]
      exact hinv
    · rw [hs, Function.update_of_ne hj]
      exact h.objs j
  · intro j hj
    rw [hs, Function.update_of_ne]
    · exact h.fresh j (hnext ▸ hj)
    · have := (ht.number co r hr).1
      rw [hnext] at hj
      omega
  · intro c r' hr' hpl
    rw [hs'] at hr'
    obtain ⟨-, rfl⟩ | ⟨hc, hr'⟩ := setPlace_cos hr'
    · obtain hpl | hpl := hpl
      · exact absurd hpl hent
      · exact absurd hpl hreg
    · rw [hother c r' hc hr']
      exact h.unarmed c r' hr' hpl
  · intro c r' hr' hpl
    rw [hs'] at hr'
    obtain ⟨rfl, rfl⟩ | ⟨hc, hr'⟩ := setPlace_cos hr'
    · show ∃ c', (s'.async r.async_func).current = some c' ∧ _
      rw [hself]
      exact hin hpl
    · rw [hother c r' hc hr']
      exact h.inside c r' hr' hpl
  · intro j c hc
    rw [hs']
    by_cases hj : j = r.async_func
    · rw [hj, hself] at hc
      obtain ⟨hco, hpl⟩ := hcur c hc
      rw [hco]
      exact ⟨_, Function.update_self _ _ _, hj.symm, hpl⟩
    · rw [hs, Function.update_of_ne hj] at hc
      obtain ⟨r', hr', hk, hpl⟩ := h.current j c hc
      refine ⟨r', (Function.update_of_ne ?_ _ _).trans hr', hk, hpl⟩
      intro hcc
      rw [hcc, hr] at hr'
      cases hr'
      exact hj hk.symm
  · intro c r' hr' hpl hpl'
    rw [hs'] at hr'
    obtain ⟨rfl, rfl⟩ | ⟨hc, hr'⟩ := setPlace_cos hr'
    · show (s'.async r.async_func).wrapper_.wrapper = _
      rw [hself]
      exact hw
    · rw [hother c r' hc hr']
      exact h.wrapper c r' hr' hpl hpl'

theorem arm_wrapper (w : Wrapper_) (m : Mail) (co call : Nat) (_timeout : Int) :
    (w.arm m co call _timeout).1.wrapper = some co := by
  unfold Wrapper_.arm
  split <;> rfl

theorem Table.use (h : Table s) (hk : s.live k = true) : (s.use k).fault = false := by
  show (s.fault || !s.live k) = false
  rw [h.fault, hk]
  rfl

theorem Inv.arm (h : Inv s) (hr : s.cos co = some r) (hp : r.place = .registered) {t : State}
    (ht : (s.use r.async_func).object r.async_func (.call co r.millsec .value) = some t) :
    Inv (t.setPlace co r .inside) := by
  have hblank := h.link.unarmed co r hr (Or.inr hp)
  obtain ⟨o, ho, rfl⟩ := Option.map_eq_some_iff.mp ht
  have ho : Calls.step (s.async r.async_func) (.call co r.millsec .value) = some o := ho
  rw [hblank] at ho
  have hfresh : Calls.Fresh ({} : Calls.State Ips) (.call co r.millsec .value) :=
    ⟨rfl, fun _ => rfl, rfl⟩
  have hinv := Calls.step_inv Calls.Inv.init hfresh ho
  cases ho
  constructor
  · have htab : Table ((s.use r.async_func).setAsync r.async_func
        (({} : Calls.State Ips).call co r.millsec .value)) :=
      h.table.same rfl rfl rfl rfl (h.table.use (h.table.number co r hr).2) h.table.visits
    refine htab.setPlace hr ?_ ?_
    · rw [hp]
      exact fun he => nomatch he
    · exact fun he => nomatch he
  · refine Link.moved .inside h.link h.table hr ⟨hinv, Nat.le_refl 1⟩ ?_ ?_ (fun _ => ⟨_, rfl, rfl⟩) (fun c hc => ?_)
      (arm_wrapper _ _ _ _ _) rfl rfl rfl
    · exact fun he => nomatch he
    · exact fun he => nomatch he
    · cases hc
      exact ⟨rfl, rfl⟩

theorem Inv.ret (h : Inv s) (hr : s.cos co = some r) (hp : r.place = .inside) {t : State} {ips : Ips}
    (ht : s.object r.async_func .ret = some t) : Inv (t.setPlace co r (.back ips)) := by
  obtain ⟨o, ho, rfl⟩ := Option.map_eq_some_iff.mp ht
  obtain ⟨hobj, hcalls⟩ := h.link.objs r.async_func
  have hinv : Calls.Inv o := Calls.step_inv (a := .ret) hobj trivial ho
  obtain ⟨c, hc, ho⟩ := Option.bind_eq_some_iff.mp ho
  obtain ⟨-, ho⟩ := Option.ite_none_right_eq_some.mp ho
  obtain ⟨st, hg⟩ := hobj.going c hc
  have hnext : r.place ≠ .entered ∧ r.place ≠ .registered := by
    rw [hp]
    refine ⟨?_, ?_⟩ <;> exact fun he => nomatch he
  have hw := h.link.wrapper co r hr hnext.1 hnext.2
  unfold Calls.State.ret at ho
  dsimp only at ho
  rw [if_pos hg.started] at ho
  cases ho
  constructor
  · exact (h.table.async _ _).setPlace hr hnext.1 (fun he => nomatch he)
  · refine Link.moved (.back ips) h.link h.table hr ⟨hinv, hcalls⟩ ?_ ?_ ?_ (fun c hc => ?_) hw rfl
      rfl rfl
    · exact fun he => nomatch he
    · exact fun he => nomatch he
    · exact fun he => nomatch he
    · cases hc

/-- **A call erases its own entry and only that.** -/
theorem Inv.erases (h : Inv s) (hr : s.cos co = some r) {ips : Ips} (hp : r.place = .back ips) :
    (s.leave co r ips).dnsinfo_vec_ =
      s.dnsinfo_vec_.filter fun e => e.async_func != r.async_func := by
  refine List.filter_congr (fun e he => ?_)
  obtain ⟨c, r', hr', hpl, rfl⟩ := h.table.vec e he
  show ((s.async r'.async_func).wrapper_.wrapper != some co) = (r'.async_func != r.async_func)
  by_cases hc : c = co
  · subst hc
    rw [hr] at hr'
    cases hr'
    have hw := h.link.wrapper c r hr hpl (by rw [hp]; exact fun he => nomatch he)
    rw [hw, bne_self_eq_false, bne_self_eq_false]
  · have hne : r'.async_func ≠ r.async_func := fun heq => hc (h.table.inj c co r' r hr' hr heq)
    have hw : (s.async r'.async_func).wrapper_.wrapper ≠ some co := by
      by_cases hreg : r'.place = .registered
      · rw [h.link.unarmed c r' hr' (Or.inr hreg)]
        exact fun he => nomatch he
      · rw [h.link.wrapper c r' hr' hpl hreg]
        exact fun he => hc (Option.some.inj he)
    rw [bne_iff_ne.mpr hw, bne_iff_ne.mpr hne]

theorem Inv.leave (h : Inv s) (hr : s.cos co = some r) {ips : Ips} (hp : r.place = .back ips)
    (hfree : s.cancelling = none) : Inv (s.leave co r ips) := by
  have hcos : ∀ c r', (s.leave co r ips).cos c = some r' → c ≠ co ∧ s.cos c = some r' := by
    intro c r' hr'
    have hr' : Function.update s.cos co none c = some r' := hr'
    by_cases hc : c = co
    · rw [hc, Function.update_self] at hr'
      cases hr'
    · rw [Function.update_of_ne hc] at hr'
      exact ⟨hc, hr'⟩
  have hkeep : ∀ c r', c ≠ co → s.cos c = some r' → (s.leave co r ips).cos c = some r' :=
    fun c r' hc hr' => (Function.update_of_ne hc _ _).trans hr'
  have hne : ∀ c r', c ≠ co → s.cos c = some r' → r'.async_func ≠ r.async_func :=
    fun c r' hc hr' heq => hc (h.table.inj c co r' r hr' hr heq)
  have hvec := h.erases hr hp
  constructor
  · constructor
    · show (s.fault || s.dnsinfo_vec_.any fun e => !s.live e.async_func) = false
      rw [h.table.fault, Bool.false_or, List.any_eq_false]
      intro e he
      obtain ⟨c, r', hr', -, rfl⟩ := h.table.vec e he
      show ¬ (!s.live r'.async_func) = true
      rw [(h.table.number c r' hr').2]
      exact Bool.false_ne_true
    · intro c r' hr'
      obtain ⟨hc, hr'⟩ := hcos c r' hr'
      obtain ⟨hlt, hlive⟩ := h.table.number c r' hr'
      exact ⟨hlt, (Function.update_of_ne (hne c r' hc hr') _ _).trans hlive⟩
    · intro c c' r₁ r₂ h₁ h₂ heq
      exact h.table.inj c c' r₁ r₂ (hcos c r₁ h₁).2 (hcos c' r₂ h₂).2 heq
    · intro e he
      rw [hvec] at he
      obtain ⟨he, hek⟩ := List.mem_filter.mp he
      obtain ⟨c, r', hr', hpl, rfl⟩ := h.table.vec e he
      refine ⟨c, r', hkeep c r' ?_ hr', hpl, rfl⟩
      intro hc
      rw [hc, hr] at hr'
      cases hr'
      exact bne_iff_ne.mp hek rfl
    · intro c r' hr' hpl
      obtain ⟨hc, hr'⟩ := hcos c r' hr'
      obtain ⟨e, he, hek⟩ := List.mem_map.mp (h.table.mem c r' hr' hpl)
      rw [hvec]
      refine List.mem_map.mpr ⟨e, List.mem_filter.mpr ⟨he, bne_iff_ne.mpr ?_⟩, hek⟩
      rw [hek]
      exact hne c r' hc hr'
    · rw [hvec]
      exact h.table.nodup.sublist (List.filter_sublist.map _)
    · intro l hl
      have hl : s.cancelling = some l := hl
      rw [hfree] at hl
      cases hl
  · constructor
    · exact h.link.objs
    · exact h.link.fresh
    · exact fun c r' hr' => h.link.unarmed c r' (hcos c r' hr').2
    · exact fun c r' hr' => h.link.inside c r' (hcos c r' hr').2
    · intro k c hc
      obtain ⟨r', hr', hk, hpl⟩ := h.link.current k c hc
      refine ⟨r', hkeep c.co r' ?_ hr', hk, hpl⟩
      intro hcc
      rw [hcc, hr] at hr'
      cases hr'
      rw [hp] at hpl
      cases hpl
    · exact fun c r' hr' => h.link.wrapper c r' (hcos c r' hr').2

theorem Inv.cancel (h : Inv s) {p : DnsInfo → Bool} (hs : s.cancel p = some s') : Inv s' := by
  obtain ⟨-, hs⟩ := Option.ite_none_right_eq_some.mp hs
  cases hs
  refine ⟨h.table.same rfl rfl rfl rfl h.table.fault (fun l hl k hk => ?_), h.link.same rfl rfl rfl⟩
  cases hl
  obtain ⟨e, he, rfl⟩ := List.mem_map.mp hk
  exact List.mem_map.mpr ⟨e, (List.mem_filter.mp he).1, rfl⟩

theorem step_visit (hs : step s .visit = some s') : ∃ k rest, s.cancelling = some (k :: rest) ∧
    ({ s.use k with cancelling := some rest } : State).object k .cancel = some s' := by
  unfold step at hs
  dsimp only at hs
  split at hs
  · rename_i k rest hc
    exact ⟨k, rest, hc, hs⟩
  · cases hs

/-- the object a `Cancel` goes to is not deleted -/
theorem Inv.visit (h : Inv s) {rest : List Nat} (hc : s.cancelling = some (k :: rest))
    (hs : ({ s.use k with cancelling := some rest } : State).object k .cancel = some s') : Inv s' := by
  have hk := h.table.visits _ hc
  obtain ⟨e, he, hek⟩ := List.mem_map.mp (hk k List.mem_cons_self)
  obtain ⟨co, r, hr, -, heq⟩ := h.table.vec e he
  have hlive : s.live k = true := by
    rw [← hek, heq]
    exact (h.table.number co r hr).2
  have hmid : Inv ({ s.use k with cancelling := some rest } : State) := by
    refine ⟨h.table.same rfl rfl rfl rfl (h.table.use hlive) (fun l hl j hj => ?_),
      h.link.same rfl rfl rfl⟩
    cases hl
    exact hk j (List.mem_cons_of_mem _ hj)
  exact hmid.inner (a := .cancel) trivial hs

theorem step_inv {a : Act} (h : Inv s) (hs : step s a = some s') : Inv s' := by
  cases a with
  | enter co host millsec b =>
    obtain ⟨hco, hs⟩ := Option.ite_none_right_eq_some.mp hs
    cases hs
    exact h.enter hco host millsec b
  | register co =>
    obtain ⟨r, hr, hs⟩ := Option.bind_eq_some_iff.mp hs
    obtain ⟨⟨hp, hfree⟩, hs⟩ := Option.ite_none_right_eq_some.mp hs
    cases hs
    exact h.register hr hp hfree
  | arm co =>
    obtain ⟨r, hr, hs⟩ := Option.bind_eq_some_iff.mp hs
    obtain ⟨hp, hs⟩ := Option.ite_none_right_eq_some.mp hs
    obtain ⟨t, ht, rfl⟩ := Option.map_eq_some_iff.mp hs
    exact h.arm hr hp ht
  | ret co =>
    obtain ⟨r, hr, hs⟩ := Option.bind_eq_some_iff.mp hs
    obtain ⟨hp, hs⟩ := Option.ite_none_right_eq_some.mp hs
    obtain ⟨t, ht, rfl⟩ := Option.map_eq_some_iff.mp hs
    exact h.ret hr hp ht
  | leave co =>
    obtain ⟨r, hr, hs⟩ := Option.bind_eq_some_iff.mp hs
    cases hp : r.place with
    | back ips =>
      rw [hp] at hs
      obtain ⟨hfree, hs⟩ := Option.ite_none_right_eq_some.mp hs
      cases hs
      exact h.leave hr hp hfree
    | entered | registered | inside =>
      rw [hp] at hs
      cases hs
  | yield k => exact h.inner (a := .yield) trivial hs
  | finish k ips => exact h.inner (a := .finish ips) trivial hs
  | threadEnd k => exact h.inner (a := .threadEnd) trivial hs
  | pick k x =>
    obtain ⟨-, hs⟩ := Option.ite_none_right_eq_some.mp hs
    exact h.inner (a := .pick x) trivial hs
  | run k x => exact h.inner (a := .run x) trivial hs
  | cancelHost host => exact h.cancel hs
  | cancelBreaker b =>
    have hmid : Inv ({ s with isbreak := Function.update s.isbreak b true } : State) :=
      ⟨h.table.same rfl rfl rfl rfl h.table.fault h.table.visits, h.link.same rfl rfl rfl⟩
    exact hmid.cancel hs
  | visit =>
    obtain ⟨k, rest, hc, hs⟩ := step_visit hs
    exact h.visit hc hs
  | unlock =>
    obtain ⟨-, hs⟩ := Option.ite_none_right_eq_some.mp hs
    cases hs
    refine ⟨h.table.same rfl rfl rfl rfl h.table.fault (fun l hl => ?_), h.link.same rfl rfl rfl⟩
    cases hl

theorem Inv.init : Inv {} := by
  constructor
  · constructor
    case nodup => exact List.nodup_nil
    · rfl
    all_goals intros
    all_goals contradiction
  · constructor
    · exact fun _ => ⟨Calls.Inv.init, Nat.zero_le 1⟩
    · exact fun _ _ => rfl
    all_goals intros
    all_goals contradiction

end

end Coroutine.Dns
