import LearnDiary.Base.Bytes
import LearnDiary.Lib.Elements
import LearnDiary.Lib.Runs
import LearnDiary.Lib.Vec
import Mathlib.Data.List.Nodup

/-!
# `DNS::Cancel(DNSBreaker&)` (comm/dns/dns.cc)

Requests stand in the shared vector `sg_dnsinfo_vec`; a breaker keeps the address of the status in
the element of its request.  Every step is one critical section of `sg_mutex`: the start of a call up
to its first wait, one turn of its loop, the end of a worker, and the two `Cancel`.

* `step_effect`     no request comes or goes, or one is added, or the one a call finds is erased;
* `Known`, `Held`   what the waiting calls and a breaker know about the vector, kept by the steps
                    under which it is steady for the breaker;
* `cancel_own`      then `Cancel` hits the request of its breaker and no other;
* `cancel_hits_other`  an erased element before it moves the request from under the address.
-/

namespace Dns
open Runs

inductive Status where
  | kGetIPDoing
  | kGetIPTimeout
  | kGetIPCancel
  | kGetIPSuc
  | kGetIPFail
deriving DecidableEq

/-- the fixed part of a `dnsinfo`; `call` and `breaker` say which call of `GetHostByName` registered
it and with which breaker -/
structure Request where
  call : Nat
  breaker : Option Nat
  threadid : Nat
  dns : Nat
  host_name : Bytes
deriving DecidableEq

structure DnsInfo extends Request where
  result : List Bytes := []
  status : Status := .kGetIPDoing
deriving DecidableEq

structure DNSBreaker where
  isbreak : Bool := false
  dnsstatus : Option Vec.Ptr := none
deriving DecidableEq

/-- a call that waits: its `info.threadid`, `_host_name` and `_breaker` -/
structure Waiting where
  threadid : Nat
  _host_name : Bytes
  _breaker : Option Nat
deriving DecidableEq

structure State where
  sg_dnsinfo_vec : Vec DnsInfo := {}
  breakers : Nat → DNSBreaker := fun _ => {}
  calls : Nat → Option Waiting := fun _ => none
  /-- the threads that run `__GetIP` -/
  workers : List Nat := []
  /-- the number of calls made -/
  next : Nat := 0
  /-- calls that returned, with what they returned -/
  returned : List (Nat × Bool × List Bytes) := []

namespace State

def ret (s : State) (i : Nat) (ok : Bool) (ips : List Bytes) : State :=
  { s with calls := Function.update s.calls i none, returned := s.returned ++ [(i, ok, ips)] }

/-- `if (_breaker) _breaker->dnsstatus = p` -/
def setPtr (s : State) (_breaker : Option Nat) (p : Option Vec.Ptr) : State :=
  match _breaker with
  | none => s
  | some b => { s with breakers := Function.update s.breakers b { s.breakers b with dnsstatus := p } }

/-- `GetHostByName` up to its first wait; `tid` is none where the thread does not start -/
def start (s : State) (dns : Nat) (_host_name : Bytes) (_breaker tid : Option Nat) (room : Nat) :
    Option State :=
  let i := s.next
  let s := { s with next := i + 1 }
  if _host_name = [] then some (s.ret i false [])
  else if _breaker.any (fun b => (s.breakers b).isbreak) then some (s.ret i false [])
  else
    match tid with
    | none => some (s.ret i false [])
    | some t =>
      -- no two running threads have one id
      if t ∈ s.workers then none
      else
        let info : DnsInfo := { call := i, breaker := _breaker, threadid := t, dns, host_name := _host_name }
        (s.sg_dnsinfo_vec.push info room).map fun vec =>
          { s with sg_dnsinfo_vec := vec, workers := t :: s.workers
                   calls := Function.update s.calls i (some ⟨t, _host_name, _breaker⟩) }.setPtr
            _breaker (some vec.backPtr)

/-- a turn of the loop of call `i`, woken by a notification or by the time -/
def wake (s : State) (i : Nat) (timedout : Bool) : Option State :=
  (s.calls i).map fun c =>
    match s.sg_dnsinfo_vec.elems.findIdx? (fun e => e.threadid == c.threadid) with
    | none => s.ret i false []
    | some k =>
      match s.sg_dnsinfo_vec.elems[k]? with
      | none => s.ret i false []
      | some e =>
        let status := if timedout then .kGetIPTimeout else e.status
        let vec := { s.sg_dnsinfo_vec with
          elems := s.sg_dnsinfo_vec.elems.set k { e with status } }
        let s := { s with sg_dnsinfo_vec := vec }
        let gone := { s with sg_dnsinfo_vec := vec.erase k }.setPtr c._breaker none
        match status with
        | .kGetIPDoing => s
        | .kGetIPSuc => if c._host_name = e.host_name then gone.ret i true e.result else s.ret i false []
        | .kGetIPTimeout | .kGetIPCancel | .kGetIPFail => gone.ret i false []

end State

/-- how a lookup ends: `getaddrinfo` with an error or with addresses, or the `dns_func` -/
inductive Lookup where
  | error
  | addrs (ips : List Bytes)
  | func (ips : List Bytes)

def Lookup.store (r : Lookup) (e : DnsInfo) : DnsInfo :=
  match r with
  | .error => { e with status := .kGetIPFail }
  | .addrs ips => { e with result := e.result ++ ips, status := .kGetIPSuc }
  | .func ips => { e with result := ips, status := if ips = [] then .kGetIPFail else .kGetIPSuc }

namespace State

/-- the second critical section of `__GetIP` -/
def finish (s : State) (tid : Nat) (r : Lookup) : Option State :=
  if tid ∈ s.workers then
    let k := s.sg_dnsinfo_vec.elems.findIdx (fun e => e.threadid == tid)
    some { s with
      workers := s.workers.erase tid
      sg_dnsinfo_vec := { s.sg_dnsinfo_vec with elems := s.sg_dnsinfo_vec.elems.modify k r.store } }
  else none

def setCancel (e : DnsInfo) : DnsInfo := { e with status := .kGetIPCancel }

/-- `Cancel(const std::string&)` -/
def cancelHost (s : State) (dns : Nat) (_host_name : Bytes) : State :=
  { s with sg_dnsinfo_vec := { s.sg_dnsinfo_vec with
    elems := s.sg_dnsinfo_vec.elems.map fun e =>
      if (_host_name = [] ∨ e.host_name = _host_name) ∧ e.dns = dns then setCancel e else e } }

/-- `Cancel(DNSBreaker&)`; there is no outcome where the address is that of freed memory -/
def cancel (s : State) (b : Nat) : Option State :=
  let s := { s with breakers := Function.update s.breakers b { s.breakers b with isbreak := true } }
  match (s.breakers b).dnsstatus with
  | none => some s
  | some p => (s.sg_dnsinfo_vec.write p setCancel).map fun vec => { s with sg_dnsinfo_vec := vec }

end State

inductive Act where
  | start (dns : Nat) (_host_name : Bytes) (_breaker tid : Option Nat) (room : Nat)
  | wake (i : Nat) (timedout : Bool)
  | finish (tid : Nat) (r : Lookup)
  | cancelHost (dns : Nat) (_host_name : Bytes)
  | cancel (b : Nat)

def step (s : State) : Act → Option State
  | .start dns host b tid room => s.start dns host b tid room
  | .wake i timedout => s.wake i timedout
  | .finish tid r => s.finish tid r
  | .cancelHost dns host => some (s.cancelHost dns host)
  | .cancel b => s.cancel b

/-! ## the requests in the vector -/

def requests (s : State) : Vec Request := s.sg_dnsinfo_vec.map DnsInfo.toRequest

def Registered (s : State) (b : Nat) : Prop := ∃ r ∈ (requests s).elems, r.breaker = some b

/-- the request of call `i` stands before that of breaker `b` -/
def Before (s : State) (i b : Nat) : Prop :=
  ∃ j k : Nat, j < k ∧ (∃ r : Request, (requests s).elems[j]? = some r ∧ r.call = i) ∧
    ∃ r : Request, (requests s).elems[k]? = some r ∧ r.breaker = some b

/-- call `i` does not go on waiting: the time is over or the status is a final one -/
def Ends (s : State) (i : Nat) (timedout : Bool) : Prop :=
  timedout = true ∨ ∃ c e, s.calls i = some c ∧
    s.sg_dnsinfo_vec.elems.find? (fun e => e.threadid == c.threadid) = some e ∧
    e.status ≠ .kGetIPDoing

/-- a call with this name and this breaker comes as far as its thread -/
def Enters (s : State) (_host_name : Bytes) (_breaker : Option Nat) : Prop :=
  _host_name ≠ [] ∧ ¬ _breaker.any (fun b => (s.breakers b).isbreak) = true

/-- the steps under which the vector is steady for breaker `b`: no thread id is used again while it
stands there, and while the request of `b` does, the vector has room, no request before it ends and
`b` is not passed on -/
def Steady (b : Nat) (s : State) : Act → Prop
  | .start _ host b' tid _ => ∀ t, tid = some t → Enters s host b' →
      (∀ r ∈ (requests s).elems, r.threadid ≠ t) ∧
      (Registered s b → b' ≠ some b ∧ s.sg_dnsinfo_vec.elems.length < s.sg_dnsinfo_vec.cap)
  | .wake i timedout => Ends s i timedout → ¬ Before s i b
  | _ => True

/-! ## what the start and a turn of a call do -/

/-- the entry a new call adds -/
def newInfo (s : State) (dns : Nat) (host : Bytes) (_breaker : Option Nat) (t : Nat) : DnsInfo :=
  { call := s.next, breaker := _breaker, threadid := t, dns, host_name := host }

/-- the state of a call that comes with thread `t` and finds `vec` with its entry -/
def comeIn (s : State) (host : Bytes) (_breaker : Option Nat) (t : Nat) (vec : Vec DnsInfo) : State :=
  { s with sg_dnsinfo_vec := vec, workers := t :: s.workers, next := s.next + 1
           calls := Function.update s.calls s.next (some ⟨t, host, _breaker⟩) }.setPtr
    _breaker (some vec.backPtr)

theorem start_cases {s s' : State} {dns room : Nat} {host : Bytes} {bo tid : Option Nat}
    (h : s.start dns host bo tid room = some s') :
    s' = ({ s with next := s.next + 1 } : State).ret s.next false [] ∨
    ∃ t vec, tid = some t ∧ Enters s host bo ∧ t ∉ s.workers ∧
      s.sg_dnsinfo_vec.push (newInfo s dns host bo t) room = some vec ∧ s' = comeIn s host bo t vec := by
  unfold State.start at h
  dsimp only at h
  split at h
  · exact Or.inl (Option.some.inj h).symm
  rename_i hhost
  split at h
  · exact Or.inl (Option.some.inj h).symm
  rename_i hbreak
  cases tid with
  | none => exact Or.inl (Option.some.inj h).symm
  | some t =>
    simp only at h
    split at h
    · cases h
    rename_i ht
    obtain ⟨vec, hvec, rfl⟩ := Option.map_eq_some_iff.mp h
    exact Or.inr ⟨t, vec, rfl, ⟨hhost, hbreak⟩, ht, hvec, rfl⟩

/-- the entry that a call finds in its turn -/
def turned (timedout : Bool) (e : DnsInfo) : DnsInfo :=
  { e with status := if timedout then .kGetIPTimeout else e.status }

/-- the state with `turned` written back -/
def State.turn (s : State) (k : Nat) (timedout : Bool) (e : DnsInfo) : State :=
  { s with sg_dnsinfo_vec :=
    { s.sg_dnsinfo_vec with elems := s.sg_dnsinfo_vec.elems.set k (turned timedout e) } }

/-- the state in which the entry at `k` is gone and its call has returned -/
def State.leave (s : State) (k i : Nat) (_breaker : Option Nat) (ok : Bool) (ips : List Bytes) : State :=
  ({ s with sg_dnsinfo_vec := s.sg_dnsinfo_vec.erase k }.setPtr _breaker none).ret i ok ips

/-- what a turn of the loop of call `i` does: it finds no entry, it waits on, it returns and erases
the entry, or the entry is one of another host name -/
inductive Wakes (s : State) (i : Nat) (timedout : Bool) (c : Waiting) : State → Prop
  | lost (hno : s.sg_dnsinfo_vec.elems.findIdx? (fun e => e.threadid == c.threadid) = none) :
      Wakes s i timedout c (s.ret i false [])
  | waits {k : Nat} {e : DnsInfo}
      (hf : s.sg_dnsinfo_vec.elems.findIdx? (fun e => e.threadid == c.threadid) = some k)
      (hk : s.sg_dnsinfo_vec.elems[k]? = some e) : Wakes s i timedout c (s.turn k timedout e)
  | ends {k : Nat} {e : DnsInfo} {ok : Bool} {ips : List Bytes}
      (hf : s.sg_dnsinfo_vec.elems.findIdx? (fun e => e.threadid == c.threadid) = some k)
      (hk : s.sg_dnsinfo_vec.elems[k]? = some e) (hdone : (turned timedout e).status ≠ .kGetIPDoing)
      (hok : ok = true → e.status = .kGetIPSuc ∧ ips = e.result) :
      Wakes s i timedout c ((s.turn k timedout e).leave k i c._breaker ok ips)
  | stranger {k : Nat} {e : DnsInfo}
      (hf : s.sg_dnsinfo_vec.elems.findIdx? (fun e => e.threadid == c.threadid) = some k)
      (hk : s.sg_dnsinfo_vec.elems[k]? = some e) (hhost : c._host_name ≠ e.host_name) :
      Wakes s i timedout c ((s.turn k timedout e).ret i false [])

theorem wake_cases {s s' : State} {i : Nat} {timedout : Bool} (h : s.wake i timedout = some s') :
    ∃ c, s.calls i = some c ∧ Wakes s i timedout c s' := by
  obtain ⟨c, hc, h⟩ := Option.map_eq_some_iff.mp h
  refine ⟨c, hc, ?_⟩
  split at h
  · rename_i hno
    cases h
    exact .lost hno
  rename_i k hf
  have hlt := (List.findIdx?_eq_some_iff_getElem.mp hf).1
  split at h
  · rename_i hnone
    exact absurd hlt (Nat.not_lt.mpr (List.getElem?_eq_none_iff.mp hnone))
  rename_i e hk
  obtain ⟨status, hst⟩ : ∃ x : Status, x = if timedout then .kGetIPTimeout else e.status := ⟨_, rfl⟩
  have hset : turned timedout e = { e with status } := by rw [hst]; rfl
  have hends : ∀ ok ips, status ≠ .kGetIPDoing → (ok = true → e.status = .kGetIPSuc ∧ ips = e.result) →
      Wakes s i timedout c (({ s with sg_dnsinfo_vec := ({ s.sg_dnsinfo_vec with
          elems := s.sg_dnsinfo_vec.elems.set k { e with status } } : Vec DnsInfo).erase k }.setPtr
        c._breaker none).ret i ok ips) := by
    intro ok ips hdone hok
    rw [← hset]
    refine .ends hf hk ?_ hok
    rw [hset]
    exact hdone
  rw [← hst] at h
  dsimp only at h
  split at h
  · cases h
    rw [← hset]
    exact .waits hf hk
  · split at h
    · cases h
      refine hends _ _ (fun he => nomatch he) (fun _ => ⟨?_, rfl⟩)
      cases timedout with
      | true => cases hst
      | false => exact hst.symm
    · rename_i hhost
      cases h
      rw [← hset]
      exact .stranger hf hk hhost
  all_goals
    cases h
    exact hends _ _ (fun he => nomatch he) (fun hok => nomatch hok)

/-! ## what a step does to the requests -/

/-- what a step does: no request comes or goes, one is added for a call that now waits, or the one a
waiting call finds is erased and the call returns -/
inductive Effect (s : State) : Act → State → Prop
  | stays {a : Act} {s' : State} (hreq : requests s' = requests s)
      (hptr : ∀ b, (s'.breakers b).dnsstatus = (s.breakers b).dnsstatus)
      (hcalls : ∀ i c, s'.calls i = some c → s.calls i = some c) : Effect s a s'
  | comes {dns t room : Nat} {host : Bytes} {_breaker : Option Nat} {s' : State}
      (hin : Enters s host _breaker)
      (hreq : (requests s).push ⟨s.next, _breaker, t, dns, host⟩ room = some (requests s'))
      (hptr : ∀ b, (s'.breakers b).dnsstatus =
        if _breaker = some b then some (requests s').backPtr else (s.breakers b).dnsstatus)
      (hcalls : s'.calls = Function.update s.calls s.next (some ⟨t, host, _breaker⟩)) :
      Effect s (.start dns host _breaker (some t) room) s'
  | goes {i k : Nat} {timedout : Bool} {c : Waiting} {r : Request} {s' : State}
      (hc : s.calls i = some c) (hk : (requests s).elems[k]? = some r)
      (htid : r.threadid = c.threadid) (hends : Ends s i timedout)
      (hreq : requests s' = (requests s).erase k)
      (hptr : ∀ b, (s'.breakers b).dnsstatus =
        if c._breaker = some b then none else (s.breakers b).dnsstatus)
      (hcalls : s'.calls = Function.update s.calls i none) : Effect s (.wake i timedout) s'

section
variable {s s' : State} {a : Act} {b i : Nat}

theorem ret_calls {ok : Bool} {ips : List Bytes} {j : Nat} {c : Waiting}
    (h : (s.ret i ok ips).calls j = some c) : s.calls j = some c := by
  unfold State.ret at h
  by_cases hj : j = i
  · rw [hj] at h
    simp only [Function.update_self] at h
    cases h
  · simp only [Function.update_of_ne hj] at h
    exact h

theorem setPtr_requests (s : State) (bo : Option Nat) (p : Option Vec.Ptr) :
    requests (s.setPtr bo p) = requests s := by
  cases bo <;> rfl

theorem setPtr_calls (s : State) (bo : Option Nat) (p : Option Vec.Ptr) :
    (s.setPtr bo p).calls = s.calls := by
  cases bo <;> rfl

theorem setPtr_dnsstatus (s : State) (bo : Option Nat) (p : Option Vec.Ptr) (b : Nat) :
    ((s.setPtr bo p).breakers b).dnsstatus =
      if bo = some b then p else (s.breakers b).dnsstatus := by
  cases bo with
  | none => rfl
  | some d =>
    by_cases h : d = b
    · subst h
      rw [if_pos rfl]
      simp only [State.setPtr, Function.update_self]
    · rw [if_neg (fun he => h (Option.some.inj he))]
      simp only [State.setPtr, Function.update_of_ne (Ne.symm h)]

theorem requests_elems {l : List DnsInfo} {v : Vec DnsInfo}
    (hl : l.map DnsInfo.toRequest = v.elems.map DnsInfo.toRequest) :
    ({ v with elems := l } : Vec DnsInfo).map DnsInfo.toRequest = v.map DnsInfo.toRequest := by
  unfold Vec.map
  rw [hl]

theorem ret_stays (hreq : requests s' = requests s) (hptr : s'.breakers = s.breakers)
    (hcalls : s'.calls = s.calls) (ok : Bool) (ips : List Bytes) :
    Effect s a (s'.ret i ok ips) := by
  refine .stays hreq (fun b => ?_) (fun j c hj => ?_)
  · show (s'.breakers b).dnsstatus = _
    rw [hptr]
  · rw [← hcalls]
    exact ret_calls hj

theorem start_effect {dns room : Nat} {host : Bytes} {bo tid : Option Nat}
    (h : s.start dns host bo tid room = some s') : Effect s (.start dns host bo tid room) s' := by
  obtain rfl | ⟨t, vec, rfl, hin, -, hvec, rfl⟩ := start_cases h
  · apply ret_stays <;> rfl
  · refine .comes hin ?_ (fun b => ?_) ?_
    · show _ = some (requests (State.setPtr _ _ _))
      rw [setPtr_requests]
      exact Vec.push_map DnsInfo.toRequest hvec
    · show ((State.setPtr _ _ _).breakers b).dnsstatus =
        if bo = some b then some (requests (State.setPtr _ _ _)).backPtr else _
      rw [setPtr_dnsstatus, setPtr_requests]
      show (if bo = some b then some vec.backPtr else _) = if bo = some b then
        some (vec.map DnsInfo.toRequest).backPtr else _
      rw [Vec.backPtr_map]
    · show (State.setPtr _ _ _).calls = _
      rw [setPtr_calls]

theorem found_at {l : List DnsInfo} {t k : Nat} {e : DnsInfo}
    (hk : l.findIdx? (fun e => e.threadid == t) = some k) (he : l[k]? = some e) :
    l.find? (fun e => e.threadid == t) = some e ∧ e.threadid = t := by
  obtain ⟨hlt, hp, hbefore⟩ := List.findIdx?_eq_some_iff_getElem.mp hk
  have hke := (List.getElem?_eq_some_iff.mp he).2
  rw [hke] at hp
  refine ⟨List.find?_eq_some_iff_getElem.mpr ⟨hp, k, hlt, hke, ?_⟩, beq_iff_eq.mp hp⟩
  intro j hj
  simpa using hbefore j hj

theorem wake_effect {timedout : Bool} (h : s.wake i timedout = some s') :
    Effect s (.wake i timedout) s' := by
  obtain ⟨c, hc, hw⟩ := wake_cases h
  have hkeep : ∀ k e, s.sg_dnsinfo_vec.elems[k]? = some e →
      requests (s.turn k timedout e) = requests s :=
    fun k e hk => requests_elems (Elements.map_set_same hk rfl)
  cases hw with
  | lost => apply ret_stays <;> rfl
  | waits hf hk => exact .stays (hkeep _ _ hk) (fun _ => rfl) (fun _ _ hj => hj)
  | stranger hf hk => exact ret_stays (hkeep _ _ hk) rfl rfl false []
  | @ends k e ok ips hf hk hdone hok =>
    obtain ⟨hfind, htid⟩ := found_at hf hk
    refine .goes (k := k) (r := e.toRequest) hc ?_ htid ?_ ?_ (fun b => ?_) ?_
    · show (s.sg_dnsinfo_vec.elems.map DnsInfo.toRequest)[k]? = _
      rw [List.getElem?_map, hk]
      rfl
    · cases timedout with
      | true => exact Or.inl rfl
      | false => exact Or.inr ⟨c, e, hc, hfind, hdone⟩
    · show requests (State.setPtr _ _ _) = _
      rw [setPtr_requests]
      show Vec.map DnsInfo.toRequest (Vec.erase _ k) = _
      rw [Vec.erase_map]
      exact congrArg (Vec.erase · k) (hkeep k e hk)
    · exact setPtr_dnsstatus _ _ _ _
    · show Function.update (State.setPtr _ _ _).calls i none = _
      rw [setPtr_calls]
      rfl

theorem status_stays {v : Vec DnsInfo} (hv : v.map DnsInfo.toRequest = requests s)
    (hreq : s'.sg_dnsinfo_vec = v) (hptr : ∀ b, (s'.breakers b).dnsstatus = (s.breakers b).dnsstatus)
    (hcalls : s'.calls = s.calls) : Effect s a s' := by
  refine .stays ?_ hptr (fun j c hj => ?_)
  · unfold requests
    rw [hreq]
    exact hv
  · rw [← hcalls]
    exact hj

theorem store_toRequest (r : Lookup) (e : DnsInfo) : (r.store e).toRequest = e.toRequest := by
  cases r <;> rfl

theorem finish_effect {tid : Nat} {r : Lookup} (h : s.finish tid r = some s') :
    Effect s (.finish tid r) s' := by
  unfold State.finish at h
  split at h
  · cases h
    exact status_stays (requests_elems (Elements.map_modify_same (store_toRequest r) _ _)) rfl
      (fun _ => rfl) rfl
  · cases h

theorem cancelHost_effect (s : State) (dns : Nat) (host : Bytes) :
    Effect s (.cancelHost dns host) (s.cancelHost dns host) := by
  refine status_stays (requests_elems ?_) rfl (fun _ => rfl) rfl
  rw [List.map_map]
  congr 1
  funext e
  show DnsInfo.toRequest (if _ then _ else _) = e.toRequest
  split <;> rfl

theorem cancel_effect (h : s.cancel b = some s') : Effect s (.cancel b) s' := by
  have hptr : ∀ d, (Function.update s.breakers b { s.breakers b with isbreak := true } d).dnsstatus =
      (s.breakers d).dnsstatus := by
    intro d
    by_cases hd : d = b
    · rw [hd, Function.update_self]
    · rw [Function.update_of_ne hd]
  unfold State.cancel at h
  dsimp only at h
  split at h
  · cases h
    exact .stays rfl hptr (fun _ _ hj => hj)
  · rename_i p hp
    obtain ⟨vec, hvec, rfl⟩ := Option.map_eq_some_iff.mp h
    unfold Vec.write at hvec
    split at hvec
    · cases hvec
      have hreq : ∀ e, (State.setCancel e).toRequest = e.toRequest := fun _ => rfl
      exact status_stays (requests_elems (Elements.map_modify_same hreq _ _)) rfl hptr rfl
    · cases hvec

theorem step_effect (h : step s a = some s') : Effect s a s' := by
  cases a with
  | start dns host bo tid room => exact start_effect h
  | wake i timedout => exact wake_effect h
  | finish tid r => exact finish_effect h
  | cancelHost dns host =>
    cases h
    exact cancelHost_effect s dns host
  | cancel b => exact cancel_effect h

end

/-! ## what is known about the vector -/

/-- thread ids are different, and every waiting call has its request in the vector -/
structure Known (s : State) : Prop where
  nodup : ((requests s).elems.map Request.threadid).Nodup
  mine : ∀ i c, s.calls i = some c →
    ∃ r ∈ (requests s).elems, r.call = i ∧ r.threadid = c.threadid ∧ r.breaker = c._breaker

/-- the breaker has the address of its one request, or none and no request -/
def Held (b : Nat) (s : State) : Prop :=
  ((s.breakers b).dnsstatus = none ∧ ¬ Registered s b) ∨
  ∃ p r, (s.breakers b).dnsstatus = some p ∧ (requests s).deref p = some r ∧ r.breaker = some b ∧
    ∀ (k : Nat) (r' : Request), (requests s).elems[k]? = some r' → r'.breaker = some b → k = p.idx

section
variable {s s' : State} {a : Act} {b : Nat}

theorem push_at {v w : Vec Request} {x r : Request} {room k : Nat} (h : v.push x room = some w)
    (hr : w.elems[k]? = some r) : v.elems[k]? = some r ∨ (k = v.elems.length ∧ r = x) := by
  rw [Vec.push_elems h] at hr
  rcases Nat.lt_or_ge k v.elems.length with hk | hk
  · rw [List.getElem?_append_left hk] at hr
    exact Or.inl hr
  · rw [List.getElem?_append_right hk, List.getElem?_singleton] at hr
    split at hr
    · rename_i h0
      cases hr
      exact Or.inr ⟨by omega, rfl⟩
    · cases hr

theorem erase_at {v : Vec Request} {i k : Nat} {r : Request}
    (hr : (v.erase i).elems[k]? = some r) :
    ∃ k', v.elems[k']? = some r ∧ ((k' = k ∧ k < i) ∨ (k' = k + 1 ∧ i ≤ k)) := by
  change (v.elems.eraseIdx i)[k]? = some r at hr
  rcases Nat.lt_or_ge k i with hk | hk
  · rw [List.getElem?_eraseIdx_of_lt hk] at hr
    exact ⟨k, hr, Or.inl ⟨rfl, hk⟩⟩
  · rw [List.getElem?_eraseIdx_of_ge hk] at hr
    exact ⟨k + 1, hr, Or.inr ⟨rfl, hk⟩⟩

/-- the element that a waiting call finds is its own -/
theorem Known.own (h : Known s) {i k : Nat} {c : Waiting} {r : Request} (hc : s.calls i = some c)
    (hk : (requests s).elems[k]? = some r) (htid : r.threadid = c.threadid) :
    r.call = i ∧ r.breaker = c._breaker := by
  obtain ⟨r', hr', hcall, htid', hb⟩ := h.mine i c hc
  have heq : r = r' := List.inj_on_of_nodup_map h.nodup (List.mem_of_getElem? hk) hr'
    (htid.trans htid'.symm)
  rw [heq]
  exact ⟨hcall, hb⟩

theorem Known.step (h : Known s) (hst : Steady b s a) (he : Effect s a s') : Known s' := by
  cases he with
  | stays hreq hptr hcalls =>
    refine ⟨hreq ▸ h.nodup, fun i c hc => ?_⟩
    rw [hreq]
    exact h.mine i c (hcalls i c hc)
  | @comes dns t room host bo s' hin hreq hptr hcalls =>
    have helems := Vec.push_elems hreq
    obtain ⟨hfresh, hroom⟩ := hst t rfl hin
    constructor
    · rw [helems, List.map_append]
      refine List.Nodup.append h.nodup (List.nodup_singleton _) ?_
      intro x hx hx'
      obtain ⟨r, hr, hrx⟩ := List.mem_map.mp hx
      have hxt : x = t := List.mem_singleton.mp hx'
      exact hfresh r hr (hrx.trans hxt)
    · intro i c hc
      rw [hcalls] at hc
      rw [helems]
      by_cases hi : i = s.next
      · subst hi
        rw [Function.update_self] at hc
        cases hc
        exact ⟨_, List.mem_append_right _ (List.mem_singleton.mpr rfl), rfl, rfl, rfl⟩
      · rw [Function.update_of_ne hi] at hc
        obtain ⟨r, hr, hr'⟩ := h.mine i c hc
        exact ⟨r, List.mem_append_left _ hr, hr'⟩
  | @goes i k timedout c r s' hc hk htid hends hreq hptr hcalls =>
    constructor
    · rw [hreq]
      exact h.nodup.sublist ((List.eraseIdx_sublist _ _).map _)
    · intro j d hd
      rw [hcalls] at hd
      by_cases hj : j = i
      · rw [hj, Function.update_self] at hd
        cases hd
      · rw [Function.update_of_ne hj] at hd
        obtain ⟨r', hr', hcall, hrest⟩ := h.mine j d hd
        refine ⟨r', ?_, hcall, hrest⟩
        rw [hreq]
        obtain ⟨m, hm⟩ := List.mem_iff_getElem?.mp hr'
        refine List.mem_eraseIdx_iff_getElem?.mpr ⟨m, fun hmk => hj ?_, hm⟩
        -- the element at `k` is that of call `i`
        rw [hmk, hk] at hm
        cases hm
        exact hcall.symm.trans (h.own hc hk htid).1

theorem Held.step (hk : Known s) (h : Held b s) (hst : Steady b s a) (he : Effect s a s') :
    Held b s' := by
  cases he with
  | stays hreq hptr hcalls =>
    unfold Held Registered at h ⊢
    rw [hreq, hptr]
    exact h
  | @comes dns t room host bo s' hin hreq hptr hcalls =>
    have helems := Vec.push_elems hreq
    obtain ⟨hfresh, hroom⟩ := hst t rfl hin
    by_cases hbo : bo = some b
    · -- the breaker comes with a new request, so it has no other
      have hnot : ¬ Registered s b := fun hreg => (hroom hreg).1 hbo
      refine Or.inr ⟨_, _, (hptr b).trans (if_pos hbo), Vec.deref_backPtr hreq, hbo, ?_⟩
      intro k r' hr' hb
      obtain hr' | ⟨hkl, -⟩ := push_at hreq hr'
      · exact absurd ⟨r', List.mem_of_getElem? hr', hb⟩ hnot
      · show k = (requests s').elems.length - 1
        rw [helems, List.length_append, hkl]
        rfl
    · have hptr' := (hptr b).trans (if_neg hbo)
      obtain ⟨hnone, hnot⟩ | ⟨p, r, hp, hderef, hb, hone⟩ := h
      · refine Or.inl ⟨hptr'.trans hnone, ?_⟩
        rintro ⟨r, hr, hb⟩
        obtain ⟨k, hr⟩ := List.mem_iff_getElem?.mp hr
        obtain hr | ⟨-, rfl⟩ := push_at hreq hr
        · exact hnot ⟨r, List.mem_of_getElem? hr, hb⟩
        · exact hbo hb
      · have hreg : Registered s b :=
          ⟨r, List.mem_of_getElem? (Vec.deref_iff.mp hderef).2, hb⟩
        have hlt : (requests s).elems.length < (requests s).cap := by
          show (List.map _ _).length < _
          rw [List.length_map]
          exact (hroom hreg).2
        refine Or.inr ⟨p, r, hptr'.trans hp, Vec.deref_push hreq hlt hderef, hb, ?_⟩
        intro k r' hr' hb'
        obtain hr' | ⟨-, rfl⟩ := push_at hreq hr'
        · exact hone k r' hr' hb'
        · exact absurd hb' hbo
  | @goes i k timedout c r s' hc hk' htid hends hreq hptr hcalls =>
    obtain ⟨hcall, hbr⟩ := hk.own hc hk' htid
    obtain ⟨hnone, hnot⟩ | ⟨p, r', hp, hderef, hb, hone⟩ := h
    · refine Or.inl ⟨?_, ?_⟩
      · rw [hptr]
        split
        · rfl
        · exact hnone
      · rintro ⟨x, hx, hxb⟩
        rw [hreq] at hx
        exact hnot ⟨x, List.mem_of_mem_eraseIdx hx, hxb⟩
    · have hat := (Vec.deref_iff.mp hderef).2
      by_cases hkp : k = p.idx
      · -- its own request goes
        subst hkp
        rw [hk'] at hat
        cases hat
        refine Or.inl ⟨(hptr b).trans (if_pos (hbr.symm.trans hb)), ?_⟩
        rintro ⟨x, hx, hxb⟩
        rw [hreq] at hx
        obtain ⟨m, hmk, hm⟩ := List.mem_eraseIdx_iff_getElem?.mp hx
        exact hmk (hone m x hm hxb)
      · have hbehind : p.idx < k := by
          rcases Nat.lt_or_ge k p.idx with hlt | hge
          · have hnot : ¬ Before s i b := hst hends
            exact (hnot ⟨k, p.idx, hlt, ⟨r, hk', hcall⟩, ⟨r', hat, hb⟩⟩).elim
          · omega
        have hother : c._breaker ≠ some b := fun hcb => hkp (hone k r hk' (hbr.trans hcb))
        refine Or.inr ⟨p, r', ((hptr b).trans (if_neg hother)).trans hp, ?_, hb, ?_⟩
        · rw [hreq]
          exact Vec.deref_erase hbehind hderef
        · intro m x hx hxb
          rw [hreq] at hx
          obtain ⟨m', hm', ⟨rfl, -⟩ | ⟨rfl, hle⟩⟩ := erase_at hx
          · exact hone _ x hm' hxb
          · have := hone _ x hm' hxb
            omega

theorem Known.init : Known {} := by
  refine ⟨List.nodup_nil, ?_⟩
  intro i c hc
  cases hc

theorem Held.init (b : Nat) : Held b {} := by
  refine Or.inl ⟨rfl, ?_⟩
  rintro ⟨r, hr, -⟩
  cases hr

theorem run_held (h : Run step (Steady b) {} s) : Known s ∧ Held b s := by
  refine Run.keep (P := fun t => Known t ∧ Held b t) h ?_ ⟨Known.init, Held.init b⟩
  intro t a t' ht hst ha
  have he := step_effect ha
  exact ⟨ht.1.step hst he, Held.step ht.1 ht.2 hst he⟩

/-! ## `Cancel` -/

/-- what `Cancel(DNSBreaker&)` is for: the request of `b` is cancelled and no other changes -/
def Cancels (b : Nat) (s s' : State) : Prop :=
  s'.sg_dnsinfo_vec.elems =
    s.sg_dnsinfo_vec.elems.map fun e => if e.breaker = some b then State.setCancel e else e

theorem cancels_of_held (h : Held b s) : ∃ s', step s (.cancel b) = some s' ∧ Cancels b s s' := by
  show ∃ s', s.cancel b = some s' ∧ _
  have hptr : (Function.update s.breakers b { s.breakers b with isbreak := true } b).dnsstatus =
      (s.breakers b).dnsstatus := by
    rw [Function.update_self]
  have hreq : ∀ (k : Nat) (e : DnsInfo), s.sg_dnsinfo_vec.elems[k]? = some e →
      (requests s).elems[k]? = some e.toRequest := by
    intro k e he
    show (s.sg_dnsinfo_vec.elems.map DnsInfo.toRequest)[k]? = _
    rw [List.getElem?_map, he]
    rfl
  unfold State.cancel
  dsimp only
  rw [hptr]
  obtain ⟨hnone, hnot⟩ | ⟨p, r, hp, hderef, hb, hone⟩ := h
  · rw [hnone]
    refine ⟨_, rfl, ?_⟩
    refine ((List.map_congr_left ?_).trans (List.map_id _)).symm
    intro e he
    refine if_neg (fun heb => hnot ⟨e.toRequest, ?_, heb⟩)
    exact List.mem_map_of_mem he
  · obtain ⟨hblock, hat⟩ := Vec.deref_iff.mp hderef
    have hw : s.sg_dnsinfo_vec.write p State.setCancel = some _ := if_pos hblock
    rw [hp]
    dsimp only
    rw [hw]
    refine ⟨_, rfl, ?_⟩
    show s.sg_dnsinfo_vec.elems.modify p.idx State.setCancel = _
    apply List.ext_getElem?
    intro k
    rw [List.getElem?_modify, List.getElem?_map]
    cases he : s.sg_dnsinfo_vec.elems[k]? with
    | none => rfl
    | some e =>
      show some (if p.idx = k then State.setCancel e else e) = some (if e.breaker = some b then _ else _)
      by_cases hk : p.idx = k
      · subst hk
        rw [hreq _ e he] at hat
        have heq : e.toRequest = r := Option.some.inj hat
        rw [if_pos rfl, if_pos (show e.toRequest.breaker = some b by rw [heq]; exact hb)]
      · rw [if_neg hk, if_neg (fun heb => hk (hone k _ (hreq k e he) heb).symm)]

/-- **While the vector is steady for a breaker, `Cancel` with it hits its request and no other.** -/
theorem cancel_own (b : Nat) (s : State) (h : Run step (Steady b) {} s) :
    ∃ s', step s (.cancel b) = some s' ∧ Cancels b s s' :=
  cancels_of_held (run_held h).2

end

/-- one request, with breaker 0 -/
def alone : Act := .start 1 (ascii "a") (some 0) (some 7) 1

theorem cancel_own_alone : ∃ s s', step {} alone = some s ∧ step s (.cancel 0) = some s' ∧
    s'.sg_dnsinfo_vec.elems.map (fun e => (e.breaker, e.status)) = [(some 0, .kGetIPCancel)] := by
  obtain ⟨s, hs, hv⟩ : ∃ s, step {} alone = some s ∧
      s.sg_dnsinfo_vec.elems = [⟨⟨0, some 0, 7, 1, ascii "a"⟩, [], .kGetIPDoing⟩] := ⟨_, rfl, rfl⟩
  have hsteady : Steady 0 {} alone := by
    intro t _ _
    refine ⟨fun r hr => ?_, fun hreg => ?_⟩
    · cases hr
    · obtain ⟨r, hr, -⟩ := hreg
      cases hr
  obtain ⟨s', hs', hc⟩ := cancel_own 0 s (Run.one hsteady hs)
  refine ⟨s, s', hs, hs', ?_⟩
  rw [hc, hv]
  rfl

/-- three requests, the second with breaker 0; the first ends, and the others move down -/
def shifted : List Act := [.start 1 (ascii "a") none (some 7) 4,
  .start 1 (ascii "b") (some 0) (some 8) 4, .start 1 (ascii "c") none (some 9) 4,
  .finish 7 (.func []), .wake 0 false]

theorem exec_shifted : ∃ s s', exec step {} shifted = some s ∧ step s (.cancel 0) = some s' ∧
    s.sg_dnsinfo_vec.elems = [⟨⟨1, some 0, 8, 1, ascii "b"⟩, [], .kGetIPDoing⟩,
      ⟨⟨2, none, 9, 1, ascii "c"⟩, [], .kGetIPDoing⟩] ∧
    s'.sg_dnsinfo_vec.elems = [⟨⟨1, some 0, 8, 1, ascii "b"⟩, [], .kGetIPDoing⟩,
      ⟨⟨2, none, 9, 1, ascii "c"⟩, [], .kGetIPCancel⟩] := by
  refine ⟨_, _, rfl, rfl, ?_, ?_⟩
  · rfl
  · rfl

theorem cancel_hits_other : ¬ ∀ (b : Nat) (s : State), AnyRun step {} s →
    ∃ s', step s (.cancel b) = some s' ∧ Cancels b s s' := by
  intro h
  obtain ⟨s, s', hs, hc, hbefore, hafter⟩ := exec_shifted
  obtain ⟨t, ht, hcs⟩ := h 0 s (Run.of_exec hs)
  rw [hc] at ht
  cases ht
  unfold Cancels at hcs
  rw [hbefore, hafter] at hcs
  exact absurd hcs (by decide)

end Dns
