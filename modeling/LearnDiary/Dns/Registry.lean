import LearnDiary.Dns.Breaker

/-!
# What `GetHostByName` leaves in `sg_dnsinfo_vec` (comm/dns/dns.cc)

An entry is found by the id of its thread.  The id is free for another thread once the first is
joined or detached, and the `Thread` of a call is detached where the call returns; so a new thread
has an id that no waiting call has (`Distinct`), while the thread of a call that gave up may run on.

* `Registry`         the entries are those of the waiting calls, one for each;
* `Turn`, `step_turn`  what a step does to entries, calls, breakers and the list of returns;
* `returns_clean`    a call that returns takes its own entry with it and no other;
* `early_return_keeps_address`  a call that returns before it has an entry leaves the breaker as it is.
-/

namespace Dns
open Runs

/-- a thread that starts has another id than the threads of the calls that wait -/
def Distinct (s : State) : Act → Prop
  | .start _ _ _ tid _ => ∀ t i c, tid = some t → s.calls i = some c → c.threadid ≠ t
  | _ => True

/-- the entries are those of the waiting calls, and a breaker has an address only while one of them
was made with it -/
structure Registry (s : State) : Prop where
  nodup : ((requests s).elems.map Request.threadid).Nodup
  mine : ∀ i c, s.calls i = some c → ∃ r ∈ (requests s).elems, r.call = i ∧
    r.threadid = c.threadid ∧ r.breaker = c._breaker ∧ r.host_name = c._host_name
  waits : ∀ r ∈ (requests s).elems, ∃ c, s.calls r.call = some c ∧ c.threadid = r.threadid
  past : ∀ i c, s.calls i = some c → i < s.next
  held : ∀ b, (s.breakers b).dnsstatus ≠ none → ∃ i c, s.calls i = some c ∧ c._breaker = some b

/-! ## what a step does -/

/-- what a step does where the entries are those of the waiting calls -/
inductive Turn (s : State) : Act → State → Prop
  | stays {a : Act} {s' : State} (hreq : requests s' = requests s)
      (hptr : ∀ b, (s'.breakers b).dnsstatus = (s.breakers b).dnsstatus)
      (hcalls : s'.calls = s.calls) (hnext : s'.next = s.next) (hret : s'.returned = s.returned) :
      Turn s a s'
  | refused {dns room : Nat} {host : Bytes} {bo tid : Option Nat} {s' : State}
      (hvec : s'.sg_dnsinfo_vec = s.sg_dnsinfo_vec) (hptr : s'.breakers = s.breakers)
      (hcalls : s'.calls = s.calls) (hnext : s'.next = s.next + 1)
      (hret : s'.returned = s.returned ++ [(s.next, false, [])]) :
      Turn s (.start dns host bo tid room) s'
  | comes {dns t room : Nat} {host : Bytes} {bo : Option Nat} {s' : State}
      (hreq : (requests s').elems = (requests s).elems ++ [⟨s.next, bo, t, dns, host⟩])
      (hptr : ∀ b, bo ≠ some b → (s'.breakers b).dnsstatus = (s.breakers b).dnsstatus)
      (hcalls : s'.calls = Function.update s.calls s.next (some ⟨t, host, bo⟩))
      (hnext : s'.next = s.next + 1) (hret : s'.returned = s.returned) :
      Turn s (.start dns host bo (some t) room) s'
  | goes {i k : Nat} {timedout ok : Bool} {ips : List Bytes} {c : Waiting} {e : DnsInfo} {s' : State}
      (hc : s.calls i = some c) (hk : s.sg_dnsinfo_vec.elems[k]? = some e) (hown : e.call = i)
      (hvec : s'.sg_dnsinfo_vec.elems = s.sg_dnsinfo_vec.elems.eraseIdx k)
      (hptr : ∀ b, (s'.breakers b).dnsstatus =
        if c._breaker = some b then none else (s.breakers b).dnsstatus)
      (hcalls : s'.calls = Function.update s.calls i none) (hnext : s'.next = s.next)
      (hret : s'.returned = s.returned ++ [(i, ok, ips)])
      (hok : ok = true → e.status = .kGetIPSuc ∧ ips = e.result) : Turn s (.wake i timedout) s'

section
variable {s s' : State} {a : Act} {i k : Nat} {c : Waiting} {e : DnsInfo}

theorem Registry.unmade (h : Registry s) : s.calls s.next = none := by
  cases hc : s.calls s.next with
  | none => rfl
  | some c => exact absurd (h.past _ c hc) (Nat.lt_irrefl _)

theorem requests_at (hk : s.sg_dnsinfo_vec.elems[k]? = some e) :
    (requests s).elems[k]? = some e.toRequest := by
  show (s.sg_dnsinfo_vec.elems.map DnsInfo.toRequest)[k]? = _
  rw [List.getElem?_map, hk]
  rfl

theorem Registry.own (h : Registry s) (hc : s.calls i = some c)
    (hk : s.sg_dnsinfo_vec.elems[k]? = some e) (htid : e.threadid = c.threadid) :
    e.call = i ∧ e.host_name = c._host_name := by
  obtain ⟨r, hr, hcall, hrt, -, hhost⟩ := h.mine i c hc
  have heq : e.toRequest = r := List.inj_on_of_nodup_map h.nodup
    (List.mem_of_getElem? (requests_at hk)) hr (htid.trans hrt.symm)
  subst heq
  exact ⟨hcall, hhost⟩

theorem Registry.one (h : Registry s) {j : Nat} {r r' : Request}
    (hk : (requests s).elems[k]? = some r) (hj : (requests s).elems[j]? = some r')
    (hcall : r'.call = r.call) : j = k := by
  obtain ⟨c, hc, hct⟩ := h.waits r (List.mem_of_getElem? hk)
  obtain ⟨c', hc', hct'⟩ := h.waits r' (List.mem_of_getElem? hj)
  rw [hcall, hc] at hc'
  cases hc'
  refine (List.getElem?_inj ?_ h.nodup).mp ?_
  · rw [List.length_map]
    exact (List.getElem?_eq_some_iff.mp hj).1
  · rw [List.getElem?_map, List.getElem?_map, hk, hj]
    exact congrArg some (hct'.symm.trans hct)

theorem Registry.found (h : Registry s) (hc : s.calls i = some c) :
    s.sg_dnsinfo_vec.elems.findIdx? (fun e => e.threadid == c.threadid) ≠ none := by
  intro hno
  obtain ⟨r, hr, -, hrt, -⟩ := h.mine i c hc
  obtain ⟨x, hx, rfl⟩ := List.mem_map.mp hr
  have hne := List.findIdx?_eq_none_iff.mp hno x hx
  exact absurd hrt (by simpa using hne)

theorem setPtr_vec (s : State) (bo : Option Nat) (p : Option Vec.Ptr) :
    (s.setPtr bo p).sg_dnsinfo_vec = s.sg_dnsinfo_vec := by
  cases bo <;> rfl

theorem setPtr_next (s : State) (bo : Option Nat) (p : Option Vec.Ptr) :
    (s.setPtr bo p).next = s.next := by
  cases bo <;> rfl

theorem setPtr_returned (s : State) (bo : Option Nat) (p : Option Vec.Ptr) :
    (s.setPtr bo p).returned = s.returned := by
  cases bo <;> rfl

theorem wake_turn (h : Registry s) {timedout : Bool} (hs : s.wake i timedout = some s') :
    Turn s (.wake i timedout) s' := by
  obtain ⟨c, hc, hw⟩ := wake_cases hs
  cases hw with
  | lost hno => exact absurd hno (h.found hc)
  | waits hf hk => exact .stays (requests_elems (Elements.map_set_same hk rfl)) (fun _ => rfl) rfl rfl rfl
  | stranger hf hk hhost =>
    exact absurd (h.own hc hk (found_at hf hk).2).2.symm hhost
  | @ends k e ok ips hf hk hdone hok =>
    refine .goes (k := k) (e := e) hc hk (h.own hc hk (found_at hf hk).2).1 ?_ (fun b => ?_) ?_ ?_ ?_ hok
    · show (State.setPtr _ _ _).sg_dnsinfo_vec.elems = _
      rw [setPtr_vec]
      exact List.eraseIdx_set_eq
    · exact setPtr_dnsstatus _ _ _ _
    · show Function.update (State.setPtr _ _ _).calls i none = _
      rw [setPtr_calls]
      rfl
    · exact setPtr_next _ _ _
    · show (State.setPtr _ _ _).returned ++ _ = _
      rw [setPtr_returned]
      rfl

theorem start_turn (h : Registry s) {dns room : Nat} {host : Bytes} {bo tid : Option Nat}
    (hs : s.start dns host bo tid room = some s') : Turn s (.start dns host bo tid room) s' := by
  obtain rfl | ⟨t, vec, rfl, -, -, hvec, rfl⟩ := start_cases hs
  · refine .refused rfl rfl ?_ rfl rfl
    show Function.update s.calls s.next none = s.calls
    rw [Function.update_eq_self_iff]
    exact h.unmade.symm
  · refine .comes ?_ (fun b hb => ?_) ?_ ?_ ?_
    · show (requests (State.setPtr _ _ _)).elems = _
      rw [setPtr_requests]
      exact Vec.push_elems (Vec.push_map DnsInfo.toRequest hvec)
    · show ((State.setPtr _ _ _).breakers b).dnsstatus = _
      rw [setPtr_dnsstatus, if_neg hb]
    · show (State.setPtr _ _ _).calls = _
      rw [setPtr_calls]
    · show (State.setPtr _ _ _).next = _
      rw [setPtr_next]
    · show (State.setPtr _ _ _).returned = _
      rw [setPtr_returned]

theorem step_turn (h : Registry s) (hs : step s a = some s') : Turn s a s' := by
  have he := step_effect hs
  cases a with
  | start dns host bo tid room => exact start_turn h hs
  | wake i timedout => exact wake_turn h hs
  | finish tid r =>
    change s.finish tid r = some s' at hs
    unfold State.finish at hs
    split at hs
    · cases hs
      cases he with
      | stays hreq hptr _ => exact .stays hreq hptr rfl rfl rfl
    · cases hs
  | cancelHost dns host =>
    cases hs
    cases he with
    | stays hreq hptr _ => exact .stays hreq hptr rfl rfl rfl
  | cancel b =>
    cases he with
    | stays hreq hptr _ =>
      change s.cancel b = some s' at hs
      unfold State.cancel at hs
      dsimp only at hs
      split at hs
      · cases hs
        exact .stays hreq hptr rfl rfl rfl
      · obtain ⟨vec, -, rfl⟩ := Option.map_eq_some_iff.mp hs
        exact .stays hreq hptr rfl rfl rfl

/-! ## the invariant -/

theorem Registry.init : Registry {} := by
  refine ⟨List.nodup_nil, ?_, ?_, ?_, ?_⟩
  · intro i c hc
    cases hc
  · intro r hr
    cases hr
  · intro i c hc
    cases hc
  · intro b hb
    exact absurd rfl hb

theorem Registry.same (h : Registry s) (hreq : requests s' = requests s)
    (hptr : ∀ b, (s'.breakers b).dnsstatus = (s.breakers b).dnsstatus)
    (hcalls : s'.calls = s.calls) (hnext : s.next ≤ s'.next) : Registry s' := by
  refine ⟨?_, ?_, ?_, ?_, ?_⟩
  · rw [hreq]
    exact h.nodup
  · rw [hreq, hcalls]
    exact h.mine
  · rw [hreq, hcalls]
    exact h.waits
  · intro i c hc
    rw [hcalls] at hc
    exact Nat.lt_of_lt_of_le (h.past i c hc) hnext
  · intro b
    rw [hptr, hcalls]
    exact h.held b

theorem Registry.step (h : Registry s) (hd : Distinct s a) (ht : Turn s a s') : Registry s' := by
  cases ht with
  | stays hreq hptr hcalls hnext hret => exact h.same hreq hptr hcalls hnext.ge
  | refused hvec hptr hcalls hnext hret =>
    refine h.same ?_ (fun b => by rw [hptr]) hcalls (by omega)
    unfold requests
    rw [hvec]
  | @comes dns t room host bo s' hreq hptr hcalls hnext hret =>
    have hold : ∀ i c, s.calls i = some c → s'.calls i = some c := by
      intro i c hc
      rw [hcalls, Function.update_of_ne (Nat.ne_of_lt (h.past i c hc))]
      exact hc
    have hnew : s'.calls s.next = some ⟨t, host, bo⟩ := by
      rw [hcalls, Function.update_self]
    refine ⟨?_, ?_, ?_, ?_, ?_⟩
    · rw [hreq, List.map_append]
      refine List.Nodup.append h.nodup (List.nodup_singleton _) ?_
      intro x hx hx'
      obtain ⟨r, hr, hrx⟩ := List.mem_map.mp hx
      obtain ⟨c, hc, hct⟩ := h.waits r hr
      exact hd t r.call c rfl hc ((hct.trans hrx).trans (List.mem_singleton.mp hx'))
    · intro i c hc
      rw [hcalls] at hc
      rw [hreq]
      by_cases hi : i = s.next
      · subst hi
        rw [Function.update_self] at hc
        cases hc
        exact ⟨_, List.mem_append_right _ (List.mem_singleton.mpr rfl), rfl, rfl, rfl, rfl⟩
      · rw [Function.update_of_ne hi] at hc
        obtain ⟨r, hr, hr'⟩ := h.mine i c hc
        exact ⟨r, List.mem_append_left _ hr, hr'⟩
    · intro r hr
      rw [hreq] at hr
      rcases List.mem_append.mp hr with hr | hr
      · obtain ⟨c, hc, hct⟩ := h.waits r hr
        exact ⟨c, hold _ _ hc, hct⟩
      · rw [List.mem_singleton.mp hr]
        exact ⟨_, hnew, rfl⟩
    · intro i c hc
      rw [hcalls] at hc
      rw [hnext]
      by_cases hi : i = s.next
      · omega
      · rw [Function.update_of_ne hi] at hc
        exact Nat.lt_succ_of_lt (h.past i c hc)
    · intro b hb
      by_cases hbo : bo = some b
      · exact ⟨s.next, _, hnew, hbo⟩
      · rw [hptr b hbo] at hb
        obtain ⟨i, c, hc, hcb⟩ := h.held b hb
        exact ⟨i, c, hold i c hc, hcb⟩
  | @goes i k timedout ok ips c e s' hc hk hown hvec hptr hcalls hnext hret hok =>
    have hreq : (requests s').elems = (requests s).elems.eraseIdx k := by
      show s'.sg_dnsinfo_vec.elems.map DnsInfo.toRequest = _
      rw [hvec]
      rw [← List.eraseIdx_map]
      rfl
    have hrest : ∀ j d, s'.calls j = some d → j ≠ i ∧ s.calls j = some d := by
      intro j d hd
      rw [hcalls] at hd
      by_cases hj : j = i
      · rw [hj, Function.update_self] at hd
        cases hd
      · rw [Function.update_of_ne hj] at hd
        exact ⟨hj, hd⟩
    refine ⟨?_, ?_, ?_, ?_, ?_⟩
    · rw [hreq]
      exact h.nodup.sublist ((List.eraseIdx_sublist _ _).map _)
    · intro j d hd
      obtain ⟨hj, hd⟩ := hrest j d hd
      obtain ⟨r, hr, hcall, hr'⟩ := h.mine j d hd
      refine ⟨r, ?_, hcall, hr'⟩
      rw [hreq]
      obtain ⟨m, hm⟩ := List.mem_iff_getElem?.mp hr
      refine List.mem_eraseIdx_iff_getElem?.mpr ⟨m, fun hmk => hj ?_, hm⟩
      -- the element at `k` is that of call `i`
      rw [hmk, requests_at hk] at hm
      cases hm
      exact hcall.symm.trans hown
    · intro r hr
      rw [hreq] at hr
      obtain ⟨m, hmk, hm⟩ := List.mem_eraseIdx_iff_getElem?.mp hr
      obtain ⟨d, hd, hdt⟩ := h.waits r (List.mem_of_getElem? hm)
      refine ⟨d, ?_, hdt⟩
      rw [hcalls, Function.update_of_ne, hd]
      exact fun hri => hmk (h.one (requests_at hk) hm (hri.trans hown.symm))
    · intro j d hd
      rw [hnext]
      exact h.past j d (hrest j d hd).2
    · intro b hb
      rw [hptr] at hb
      split at hb
      · exact absurd rfl hb
      · rename_i hcb
        obtain ⟨j, d, hd, hdb⟩ := h.held b hb
        refine ⟨j, d, ?_, hdb⟩
        rw [hcalls, Function.update_of_ne, hd]
        intro hj
        rw [hj, hc] at hd
        cases hd
        exact hcb hdb

theorem run_registry (h : Run step Distinct {} s) : Registry s := by
  refine Run.keep h ?_ Registry.init
  intro t a t' ht hd ha
  exact ht.step hd (step_turn ht ha)

/-! ## returns -/

def passed (s : State) : Act → Option Nat
  | .start _ _ _breaker _ _ => _breaker
  | .wake i _ => (s.calls i).bind Waiting._breaker
  | _ => none

/-- what call `i` leaves when it returns: no entry of its own and every other one as it was, a
result that stood in its own entry, and a breaker without an address; only a call that had no entry
leaves the breakers as they are, and then another call waits with an address in this one -/
structure Clean (s : State) (a : Act) (s' : State) (i : Nat) (ok : Bool) (ips : List Bytes) : Prop where
  own : ∀ e ∈ s'.sg_dnsinfo_vec.elems, e.call ≠ i
  others : s'.sg_dnsinfo_vec.elems = s.sg_dnsinfo_vec.elems.filter fun e => e.call ≠ i
  result : ok = true →
    ∃ e ∈ s.sg_dnsinfo_vec.elems, e.call = i ∧ e.status = .kGetIPSuc ∧ ips = e.result
  breaker : ∀ b, passed s a = some b → (s'.breakers b).dnsstatus = none ∨
    (s.calls i = none ∧ s'.breakers = s.breakers ∧
      ∃ j c, j ≠ i ∧ s'.calls j = some c ∧ c._breaker = some b)

theorem refused_clean (h : Registry s) {dns room : Nat} {host : Bytes} {bo tid : Option Nat}
    (hvec : s'.sg_dnsinfo_vec = s.sg_dnsinfo_vec) (hptr : s'.breakers = s.breakers)
    (hcalls : s'.calls = s.calls) :
    Clean s (.start dns host bo tid room) s' s.next false [] := by
  have hnot : ∀ e ∈ s.sg_dnsinfo_vec.elems, e.call ≠ s.next := by
    intro e he hcall
    obtain ⟨c, hc, -⟩ := h.waits e.toRequest (List.mem_map_of_mem he)
    exact absurd (h.past _ c hc) (by rw [hcall]; exact Nat.lt_irrefl _)
  refine ⟨?_, ?_, ?_, fun b hb => ?_⟩
  · rw [hvec]
    exact hnot
  · rw [hvec]
    refine (List.filter_eq_self.mpr fun e he => ?_).symm
    exact decide_eq_true (hnot e he)
  · intro hok
    cases hok
  · rw [hptr, hcalls]
    by_cases hnone : (s.breakers b).dnsstatus = none
    · exact Or.inl hnone
    · obtain ⟨j, c, hc, hcb⟩ := h.held b hnone
      exact Or.inr ⟨h.unmade, rfl, j, c, Nat.ne_of_lt (h.past j c hc), hc, hcb⟩

theorem goes_clean (h : Registry s) {timedout ok : Bool} {ips : List Bytes}
    (hc : s.calls i = some c) (hk : s.sg_dnsinfo_vec.elems[k]? = some e) (hown : e.call = i)
    (hvec : s'.sg_dnsinfo_vec.elems = s.sg_dnsinfo_vec.elems.eraseIdx k)
    (hptr : ∀ b, (s'.breakers b).dnsstatus =
      if c._breaker = some b then none else (s.breakers b).dnsstatus)
    (hok : ok = true → e.status = .kGetIPSuc ∧ ips = e.result) :
    Clean s (.wake i timedout) s' i ok ips := by
  have hothers : s'.sg_dnsinfo_vec.elems = s.sg_dnsinfo_vec.elems.filter fun e => e.call ≠ i := by
    rw [hvec]
    refine Elements.eraseIdx_eq_filter ?_ ?_ (List.getElem?_eq_some_iff.mp hk).1
    · intro x hx
      rw [hk] at hx
      cases hx
      exact decide_eq_false (fun hne => hne hown)
    · intro j x hx hj
      refine decide_eq_true (fun hcall => hj ?_)
      exact h.one (requests_at hk) (requests_at hx) (hcall.trans hown.symm)
  refine ⟨?_, hothers, fun h1 => ⟨e, List.mem_of_getElem? hk, hown, hok h1⟩, fun b hb => ?_⟩
  · intro x hx
    rw [hothers] at hx
    exact of_decide_eq_true (List.mem_filter.mp hx).2
  · left
    change (s.calls i).bind _ = some b at hb
    rw [hc] at hb
    rw [hptr]
    exact if_pos hb

/-- **A call that returns takes its own entry with it and no other**, in every run in which a new
thread has another id than those of the waiting calls. -/
theorem returns_clean (s : State) (h : Run step Distinct {} s) :
    Registry s ∧ ∀ a s' i ok ips, Distinct s a → step s a = some s' →
      s'.returned = s.returned ++ [(i, ok, ips)] → Clean s a s' i ok ips := by
  have hreg := run_registry h
  refine ⟨hreg, fun a s' i ok ips hd hs hr => ?_⟩
  have hnone : s'.returned ≠ s.returned := by
    intro he
    rw [he] at hr
    exact absurd (congrArg List.length hr) (by rw [List.length_append]; exact Nat.ne_of_lt (Nat.lt_succ_self _))
  cases step_turn hreg hs with
  | stays _ _ _ _ hret => exact absurd hret hnone
  | comes _ _ _ _ hret => exact absurd hret hnone
  | refused hvec hptr hcalls _ hret =>
    rw [hret] at hr
    cases List.append_cancel_left hr
    exact refused_clean hreg hvec hptr hcalls
  | goes hc hk hown hvec hptr _ _ hret hok =>
    rw [hret] at hr
    cases List.append_cancel_left hr
    exact goes_clean hreg hc hk hown hvec hptr hok

end

theorem first_distinct (a : Act) : Distinct {} a := by
  cases a with
  | start dns host bo tid room =>
    intro t i c _ hc
    cases hc
  | _ => trivial

def answered : List Act := [.start 1 (ascii "a") (some 0) (some 7) 1, .finish 7 (.func [ascii "ip"])]

theorem exec_answered : ∃ s s', exec step {} answered = some s ∧ step s (.wake 0 false) = some s' ∧
    s.returned = [] ∧ s'.returned = [(0, true, [ascii "ip"])] := ⟨_, _, rfl, rfl, rfl, rfl⟩

theorem returns_clean_answered : ∃ s s', exec step {} answered = some s ∧
    step s (.wake 0 false) = some s' ∧ Clean s (.wake 0 false) s' 0 true [ascii "ip"] := by
  obtain ⟨s, s', hs, hs', h0, h1⟩ := exec_answered
  refine ⟨s, s', hs, hs', ?_⟩
  have hrun : Run step Distinct {} s := by
    obtain ⟨t, ht, hs⟩ := Option.bind_eq_some_iff.mp hs
    obtain ⟨u, hu, hs⟩ := Option.bind_eq_some_iff.mp hs
    cases hs
    exact (Run.one (first_distinct _) ht).tail ⟨.finish 7 (.func [ascii "ip"]), trivial, hu⟩
  refine (returns_clean s hrun).2 _ s' _ _ _ trivial hs' ?_
  rw [h0, h1]
  rfl

def nameless : Act := .start 1 [] (some 0) none 1

/-- it returns at once, while the call before it waits with the same breaker -/
theorem step_nameless : ∃ s s', step {} alone = some s ∧ step s nameless = some s' ∧
    s.returned = [] ∧ s'.returned = [(1, false, [])] ∧
    (s'.breakers 0).dnsstatus = some ⟨1, 0⟩ := by
  refine ⟨_, _, rfl, rfl, rfl, rfl, ?_⟩
  decide

theorem early_return_keeps_address : ¬ ∀ s, Run step Distinct {} s → ∀ a s' i ok ips, Distinct s a →
    step s a = some s' → s'.returned = s.returned ++ [(i, ok, ips)] →
    ∀ b, passed s a = some b → (s'.breakers b).dnsstatus = none := by
  intro h
  obtain ⟨s, s', hs, hs', h0, h1, h2⟩ := step_nameless
  have hd : Distinct s nameless := by
    intro t i c ht _
    cases ht
  have hr : s'.returned = s.returned ++ [(1, false, [])] := by
    rw [h0, h1]
    rfl
  have hnone := h s (Run.one (first_distinct _) hs) nameless s' 1 false [] hd hs' hr 0 rfl
  rw [h2] at hnone
  cases hnone

end Dns
