import LearnDiary.Lib.Custody
import LearnDiary.Lib.Slots
import LearnDiary.Socket.CheckFsm

/-!
# `ComplexConnect::ConnectImpatient` (comm/socket/complexconnect.cc)

Several connections race in one loop.  The clock and what the system calls, `select` and the outside
of a machine give are part of a turn of the loop.  The sockets are followed through the calls.

* `Kept`                      the book of the sockets and the machines agree;
* `before_pass`, `after_pass` the two loops over the machines keep them so;
* `turn_keeps`, `run_keeps`   a turn of the loop, and every run;
* `connectImpatient_sockets`  what that says about the sockets.
-/

namespace ComplexConnect
open CheckFsm Runs Custody

inductive ProxyType where
  | kProxyNone
  | kProxyHttpTunel
  | kProxySocks5
  | kProxyHttp
deriving DecidableEq

structure Address where
  ip : Bytes
  net_addr : Bytes
  port : UInt16

/-- the object and the arguments of the call; `onShouldVerify` is what the observer tells to the
constructors of the machines -/
structure Setup where
  interval_ : UInt32
  error_interval_ : UInt32
  max_connect_ : UInt32
  _vecaddr : List Address
  _observer : Bool
  _proxy_type : ProxyType
  _proxy_username : Bytes
  _proxy_pwd : Bytes
  onShouldVerify : Nat → Bool

namespace Setup
variable (c : Setup)

def proxied (a : Address) : Proxied where
  ip := a.ip
  net_addr := a.net_addr
  port := a.port
  username_ := c._proxy_username
  password_ := c._proxy_pwd

/-- the callbacks of the machine for an address -/
def virtual (a : Address) : Virtual Check Answers :=
  match c._proxy_type with
  | .kProxyHttpTunel => httpTunel (c.proxied a)
  | .kProxySocks5 => socks5 (c.proxied a)
  | _ => connectCheck

/-- the machine for the address at `i` -/
def ic (i : Nat) : TcpClientFSM Check :=
  match c._proxy_type with
  | .kProxyHttpTunel | .kProxySocks5 => { own := ⟨c._observer, .ECheckInit⟩ }
  | _ => { own := ⟨c._observer, initial c._observer (c.onShouldVerify i)⟩ }

end Setup

inductive Call where
  | fsm (i : Nat) (call : FsmCall)
  | onFinished (i : Nat) (sock : Option Nat) (error : Int)
deriving DecidableEq

/-- the part of a call that opens or closes a socket -/
def Call.deal : Call → Deal Nat Nat
  | .fsm i (.socket fd) => .opens i fd
  | .fsm i (.socket_close fd) => .closes i fd
  | _ => .other

/-- the variables of `ConnectImpatient` and the members it sets -/
structure Impatient where
  vecsocketfsm : List (Option (TcpClientFSM Check))
  laststart_connecttime : UInt64
  lasterror : Int := 0
  index : Nat := 0
  retsocket : Option Nat := none
  trycount_ : Nat := 0
  index_ : Int := -1
  log : List Call := []
  returned : Bool := false

inductive SelectResult where
  | error
  | exception
  | breaker
  | ready
deriving DecidableEq

/-- what a turn of the loop meets; `started` is the clock where a connection is begun -/
structure Turn where
  curtime : UInt64
  started : UInt64
  calls : Nat → ConnectCalls
  select : SelectResult
  selected : Nat → Selected Answers

namespace Impatient

/-- an entry of the vector, `none` being `NULL` -/
def at_ (s : Impatient) (i : Nat) : Option (TcpClientFSM Check) := (s.vecsocketfsm[i]?).join

/-- the entry at `i` after these calls of its machine -/
def put (s : Impatient) (i : Nat) (f : Option (TcpClientFSM Check)) (calls : List FsmCall) :
    Impatient :=
  { s with vecsocketfsm := s.vecsocketfsm.set i f, log := s.log ++ calls.map (.fsm i) }

def descriptors (s : Impatient) : List Nat := opened (s.log.map Call.deal)

def delete (s : Impatient) (i : Nat) (f : TcpClientFSM Check) (calls : List FsmCall) : Impatient :=
  s.put i none (calls ++ (f.close false).2)

end Impatient

/-- before the loop, which no address does not reach -/
def begin (c : Setup) (curtime : UInt64) : Impatient where
  vecsocketfsm := (List.range c._vecaddr.length).map fun i => some (c.ic i)
  laststart_connecttime := curtime - (max c.interval_ c.error_interval_).toUInt64
  returned := c._vecaddr.isEmpty

def isconnecting : Option (TcpClientFSM Check) → Bool
  | none => false
  | some f => f.sock_.isSome

/-- the conversion to `int` of a 64 bit difference -/
def next_connect_timeout (c : Setup) (s : Impatient) (curtime : UInt64) : Int :=
  toInt32 (((if s.lasterror = 0 then c.interval_ else c.error_interval_).toUInt64 -
    (curtime - s.laststart_connecttime)).toNat)

/-- one connection more is begun where it is time and there is room -/
def pace (c : Setup) (s : Impatient) (t : Turn) : Impatient :=
  let runing_count := s.vecsocketfsm.countP isconnecting
  if s.index < s.vecsocketfsm.length ∧ next_connect_timeout c s t.curtime ≤ 0 ∧
      runing_count < c.max_connect_.toNat then
    { s with
      laststart_connecttime := t.started, lasterror := 0, trycount_ := s.index + 1
      index := s.index + 1 }
  else s

/-- `socket` gives no descriptor that is open -/
def possible (s : Impatient) (f : TcpClientFSM Check) : ConnectCalls → Bool
  | .made fd _ _ => f.status_ != .EStart || !s.descriptors.contains fd
  | .failed _ => true

/-- the loop over `PreSelect` -/
def before (t : Turn) (s : Impatient) (i : Nat) : Option Impatient :=
  match s.at_ i with
  | none => some s
  | some f =>
    if possible s f (t.calls i) then
      (f.preSelect (t.calls i)).map fun r => s.put i (some r.1) r.2
    else none

/-- `OnFinished`, for an observer -/
def finished (c : Setup) (s : Impatient) (i : Nat) (f : TcpClientFSM Check) : Impatient :=
  if c._observer then { s with log := s.log ++ [.onFinished i f.sock_ f.error_] } else s

/-- the loop over `AfterSelect`; behind a `break` nothing is done -/
def after (c : Setup) (t : Turn) (s : Impatient) (i : Nat) : Option Impatient :=
  match s.at_ i, c._vecaddr[i]?, s.retsocket with
  | some f, some a, none =>
    (f.afterSelect (c.virtual a) (t.selected i)).map fun (f, calls) =>
      let s := s.put i (some f) calls
      if f.status_ = .EEnd ∨ f.status_ = .EReadWrite ∧ f.own.check_status_ = .ECheckFail then
        let s := finished c s i f
        let (f, calls) := f.close true
        { s.delete i f calls with lasterror := -1 }
      else if f.status_ = .EReadWrite ∧ f.own.check_status_ = .ECheckOK then
        let s := { finished c s i f with retsocket := f.sock_, index_ := i }
        s.delete i { f with sock_ := none } []
      else s
  | _, _, _ => some s

/-- the loop behind the turns, at `i` -/
def closeOne (s : Impatient) (i : Nat) : Impatient :=
  match s.at_ i with
  | none => s
  | some f =>
    let (f, calls) := f.close false
    s.delete i f calls

def closeAll (s : Impatient) : Impatient :=
  { (List.range s.vecsocketfsm.length).foldl closeOne s with returned := true }

/-- a turn of the loop, with what follows where it is the last one -/
def turn (c : Setup) (s : Impatient) (t : Turn) : Option Impatient :=
  if s.returned then none
  else
    let s := pace c s t
    (exec (before t) s (List.range s.index)).bind fun s =>
      if t.select ≠ .ready then some (closeAll s)
      else
        (exec (after c t) s (List.range s.index)).map fun s =>
          if s.vecsocketfsm.all Option.isNone ∨ s.retsocket.isSome then closeAll s else s

/-! ## the sockets and the machines -/

def socket : Option (TcpClientFSM Check) → Option Nat
  | none => none
  | some f => f.sock_

namespace Impatient

def owned (s : Impatient) : List (Nat × Nat) := Slots.held socket 0 s.vecsocketfsm

/-- the socket to return, under the address it is for -/
def handed (s : Impatient) : List (Nat × Nat) := s.retsocket.toList.map fun fd => (s.index_.toNat, fd)

end Impatient

/-- the book lists the sockets of the machines and the one to return -/
def Kept (c : Setup) (s : Impatient) : Prop :=
  ∃ t, Books c.max_connect_.toNat (s.log.map Call.deal) t ∧ t.Perm (s.owned ++ s.handed)

section
variable {c : Setup} {s s' : Impatient} {i : Nat} {f f' : TcpClientFSM Check}

theorem at_some (h : s.at_ i = some f) : s.vecsocketfsm[i]? = some (some f) :=
  Option.join_eq_some_iff.mp h

theorem owned_put (h : s.at_ i = some f) : ∃ A B, s.owned = A ++ Slots.entry socket i (some f) ++ B ∧
    ∀ y calls, (s.put i y calls).owned = A ++ Slots.entry socket i y ++ B := by
  obtain ⟨A, B, hA, hB⟩ := Slots.held_set socket 0 (at_some h)
  rw [Nat.zero_add] at hA hB
  exact ⟨A, B, hA, fun y _ => hB y⟩

/-- calls that are not about sockets -/
def Quiet (calls : List FsmCall) : Prop := ∀ k ∈ calls, ∀ i, (Call.fsm i k).deal = .other

theorem Quiet.nil : Quiet [] := nofun

theorem Quiet.onClose {status : TSocketStatus} {error : Int} {userclose : Bool} :
    Quiet [._OnClose status error userclose] := by
  intro k hk i
  rw [List.mem_singleton.mp hk]
  rfl

theorem Quiet.ite {p : Prop} [Decidable p] {calls : List FsmCall} (h : Quiet calls) :
    Quiet (if p then calls else []) := by
  split
  · exact h
  · exact Quiet.nil

theorem Quiet.books {max : Nat} {log : List Call} {t : List (Nat × Nat)} {calls : List FsmCall}
    (hq : Quiet calls) (h : Books max (log.map Call.deal) t) :
    Books max ((log ++ calls.map (Call.fsm i)).map Call.deal) t := by
  rw [List.map_append]
  refine h.others ?_
  intro d hd
  obtain ⟨k, hk, rfl⟩ := List.mem_map.mp hd
  obtain ⟨call, hcall, rfl⟩ := List.mem_map.mp hk
  exact hq call hcall i

theorem Kept.same (h : Kept c s) (hf : s.at_ i = some f) (hsock : f'.sock_ = f.sock_)
    {calls : List FsmCall} (hq : Quiet calls) : Kept c (s.put i (some f') calls) := by
  obtain ⟨t, ht, hp⟩ := h
  obtain ⟨A, B, hA, hB⟩ := owned_put hf
  refine ⟨t, hq.books ht, ?_⟩
  have he : Slots.entry socket i (some f') = Slots.entry socket i (some f) := by
    show f'.sock_.toList.map _ = f.sock_.toList.map _
    rw [hsock]
  show t.Perm ((s.put i (some f') calls).owned ++ s.handed)
  rwa [hB, he, ← hA]

theorem Kept.opens (h : Kept c s) (hf : s.at_ i = some f) (hnone : f.sock_ = none) {fd : Nat}
    (hsock : f'.sock_ = some fd) (hfresh : fd ∉ s.descriptors)
    (hroom : (s.owned ++ s.handed).length < c.max_connect_.toNat) :
    Kept c (s.put i (some f') [.socket fd]) := by
  obtain ⟨t, ht, hp⟩ := h
  obtain ⟨A, B, hA, hB⟩ := owned_put hf
  have hrec : record t (.opens i fd) = some ((i, fd) :: t) := by
    refine if_neg ?_
    rw [← (opened_eq ht.book).1]
    exact hfresh
  have hlen : ((i, fd) :: t).length ≤ c.max_connect_.toNat := by
    rw [List.length_cons, hp.length_eq]
    exact hroom
  refine ⟨(i, fd) :: t, ?_, ?_⟩
  · have hadd := ht.add hrec hlen
    rw [show (s.put i (some f') [.socket fd]).log = s.log ++ [.fsm i (.socket fd)] from rfl,
      List.map_append]
    exact hadd
  · show ((i, fd) :: t).Perm ((s.put i (some f') [.socket fd]).owned ++ s.handed)
    rw [Slots.entry_none (x := some f) hnone, List.append_nil] at hA
    rw [hB, Slots.entry_some (x := some f') hsock, List.append_assoc A, List.append_assoc A]
    refine List.Perm.trans (hp.cons _) ?_
    rw [hA, List.append_assoc A]
    exact List.perm_middle.symm

theorem Kept.drops (h : Kept c s) (hf : s.at_ i = some f) (hnone : f.sock_ = none)
    {calls : List FsmCall} (hq : Quiet calls) : Kept c (s.put i none calls) := by
  obtain ⟨t, ht, hp⟩ := h
  obtain ⟨A, B, hA, hB⟩ := owned_put hf
  refine ⟨t, hq.books ht, ?_⟩
  show t.Perm ((s.put i none calls).owned ++ s.handed)
  rw [hB, Slots.entry_none (x := none) rfl]
  rwa [hA, Slots.entry_none (x := some f) hnone] at hp

theorem Kept.closes (h : Kept c s) (hf : s.at_ i = some f) {fd : Nat} (hsock : f.sock_ = some fd)
    {calls : List FsmCall} (hq : Quiet calls) : Kept c (s.put i none (.socket_close fd :: calls)) := by
  obtain ⟨t, ht, hp⟩ := h
  obtain ⟨A, B, hA, hB⟩ := owned_put hf
  rw [hA, Slots.entry_some (x := some f) hsock, List.append_assoc A, List.append_assoc A] at hp
  have hp' := hp.trans List.perm_middle
  have hmem : (i, fd) ∈ t := hp'.mem_iff.mpr List.mem_cons_self
  have herase : (t.erase (i, fd)).Perm (A ++ (B ++ s.handed)) := by
    have he := hp'.erase (i, fd)
    rwa [List.erase_cons_head] at he
  have hrec : record t (.closes i fd) = some (t.erase (i, fd)) := if_pos hmem
  have hlen : (t.erase (i, fd)).length ≤ c.max_connect_.toNat :=
    (List.erase_sublist.length_le).trans ht.length_le
  refine ⟨t.erase (i, fd), ?_, ?_⟩
  · have hadd : Books c.max_connect_.toNat ((s.log ++ [Call.fsm i (.socket_close fd)]).map Call.deal)
        (t.erase (i, fd)) := by
      rw [List.map_append]
      exact ht.add hrec hlen
    have hall := hq.books (i := i) hadd
    rwa [List.append_assoc] at hall
  · show (t.erase (i, fd)).Perm ((s.put i none _).owned ++ s.handed)
    rw [hB, Slots.entry_none (x := none) rfl, List.append_nil, List.append_assoc]
    exact herase

theorem Kept.hands (h : Kept c s) (hf : s.at_ i = some f) {fd : Nat} (hsock : f.sock_ = some fd)
    (hret : s.retsocket = none) :
    Kept c (Impatient.put { s with retsocket := f.sock_, index_ := i } i none []) := by
  obtain ⟨t, ht, hp⟩ := h
  obtain ⟨A, B, hA, hB⟩ := owned_put hf
  have hs : s.handed = [] := by
    unfold Impatient.handed
    rw [hret]
    rfl
  rw [hs, List.append_nil, hA, Slots.entry_some (x := some f) hsock, List.append_assoc A] at hp
  refine ⟨t, Quiet.nil.books ht, ?_⟩
  show t.Perm ((s.put i none []).owned ++ f.sock_.toList.map fun fd => ((i : Int).toNat, fd))
  rw [hB, Slots.entry_none (x := none) rfl, List.append_nil, hsock, List.append_assoc]
  refine hp.trans (List.Perm.append_left A ?_)
  exact List.perm_append_comm

theorem Kept.finished (h : Kept c s) : Kept c (finished c s i f) := by
  unfold ComplexConnect.finished
  split
  · obtain ⟨t, ht, hp⟩ := h
    refine ⟨t, ?_, hp⟩
    rw [List.map_append]
    refine ht.others ?_
    intro d hd
    rw [List.mem_singleton.mp hd]
    rfl
  · exact h

theorem close_none {notify : Bool} (h : f.sock_ = none) : f.close notify = (f, []) := by
  unfold TcpClientFSM.close
  rw [h]

theorem Kept.deletes (h : Kept c s) (hf : s.at_ i = some f) (notify : Bool) :
    Kept c (s.delete i (f.close notify).1 (f.close notify).2) := by
  unfold Impatient.delete
  obtain ⟨f', calls, hc⟩ : ∃ f' calls, f.close notify = (f', calls) := ⟨_, _, rfl⟩
  rw [hc]
  cases TcpClientFSM.close_of hc with
  | nothing hsock he =>
    subst he
    rw [close_none hsock]
    exact h.drops hf hsock Quiet.nil
  | silent hsock _ hsock' _ =>
    rw [close_none hsock']
    exact h.closes hf hsock Quiet.nil
  | closes hsock _ _ hsock' _ =>
    rw [close_none hsock', List.append_nil]
    exact h.closes hf hsock Quiet.onClose.ite

theorem at_put_self (h : s.at_ i = some f) (y : Option (TcpClientFSM Check)) (calls : List FsmCall) :
    (s.put i y calls).at_ i = y := by
  obtain ⟨hi, -⟩ := List.getElem?_eq_some_iff.mp (at_some h)
  unfold Impatient.at_ Impatient.put
  dsimp only
  rw [List.getElem?_set_self hi]
  rfl

theorem at_put_ne {j : Nat} (h : i ≠ j) (y : Option (TcpClientFSM Check)) (calls : List FsmCall) :
    (s.put i y calls).at_ j = s.at_ j := by
  unfold Impatient.at_ Impatient.put
  dsimp only
  rw [List.getElem?_set_ne h]

theorem at_delete_self {g : TcpClientFSM Check} (h : s.at_ i = some g) (calls : List FsmCall) :
    (s.delete i f calls).at_ i = none := at_put_self h _ _

theorem at_delete_ne {j : Nat} (h : i ≠ j) (f : TcpClientFSM Check) (calls : List FsmCall) :
    (s.delete i f calls).at_ j = s.at_ j := at_put_ne h _ _

theorem put_self (h : s.at_ i = some f) : s.put i (some f) [] = s := by
  obtain ⟨hi, he⟩ := List.getElem?_eq_some_iff.mp (at_some h)
  unfold Impatient.put
  rw [← he, List.set_getElem_self, List.map_nil, List.append_nil]

/-! ## a turn of the loop -/

/-- a machine that was not begun yet -/
def Waiting (f : TcpClientFSM Check) : Prop := f.status_ = .EStart ∧ f.sock_ = none

/-- a machine behind `PreSelect` -/
def Begun (f : TcpClientFSM Check) : Prop :=
  f.status_ ≠ .EStart ∧ (f.status_ ≠ .EEnd → f.sock_.isSome = true)

def Live (f : TcpClientFSM Check) : Prop := Begun f ∧ f.status_ ≠ .EEnd

/-- in the loop over `AfterSelect`, at `k` -/
structure Within (c : Setup) (s : Impatient) (k : Nat) : Prop where
  running : s.returned = false
  kept : Kept c s
  size : s.vecsocketfsm.length = c._vecaddr.length
  waiting : ∀ i, s.index ≤ i → ∀ f, s.at_ i = some f → Waiting f
  todo : ∀ i, k ≤ i → i < s.index → ∀ f, s.at_ i = some f → Begun f
  done : s.retsocket = none → ∀ i < k, ∀ f, s.at_ i = some f → Live f
  found : ∀ fd, s.retsocket = some fd → ∃ i < c._vecaddr.length, s.index_ = (i : Nat)

structure Between (c : Setup) (s : Impatient) : Prop where
  running : s.returned = false
  kept : Kept c s
  size : s.vecsocketfsm.length = c._vecaddr.length
  waiting : ∀ i, s.index ≤ i → ∀ f, s.at_ i = some f → Waiting f
  live : ∀ i < s.index, ∀ f, s.at_ i = some f → Live f
  searching : s.retsocket = none

variable {t : Turn} {k : Nat}

theorem before_idle (h : ∀ f, s.at_ i = some f → f.status_ ≠ .EStart) : before t s i = some s := by
  unfold before
  split
  · rfl
  · rename_i f hf
    have hst := h f hf
    have hposs : possible s f (t.calls i) = true := by
      unfold possible
      split
      · rw [(bne_iff_ne).mpr hst]
        rfl
      · rfl
    have hpre : f.preSelect (t.calls i) = some (f, []) := by
      unfold TcpClientFSM.preSelect
      split
      · rename_i hs
        exact absurd hs hst
      · rfl
    rw [if_pos hposs, hpre]
    exact congrArg some (put_self hf)

theorem socket_of {o : ConnectCalls} {fd : Nat} (h : f.preSelect o = some (f', [.socket fd])) :
    f.status_ = .EStart ∧ ∃ nobio connect, o = .made fd nobio connect := by
  unfold TcpClientFSM.preSelect at h
  split at h
  · rename_i hs
    refine ⟨hs, ?_⟩
    unfold TcpClientFSM.preConnectSelect at h
    split at h
    · split at h
      · cases h
      · cases h
    · split at h
      · cases h
      · dsimp only at h
        split at h
        · cases h
          exact ⟨_, _, rfl⟩
        · cases h
          exact ⟨_, _, rfl⟩
  · cases h

theorem before_new (hk : Kept c s) (hf : s.at_ i = some f) (hw : Waiting f)
    (hroom : (s.owned ++ s.handed).length < c.max_connect_.toNat) (h : before t s i = some s') :
    ∃ f' calls, s' = s.put i (some f') calls ∧ Begun f' ∧ Kept c s' := by
  obtain ⟨hst, hnone⟩ := hw
  unfold before at h
  rw [hf] at h
  dsimp only at h
  split at h
  swap
  · cases h
  rename_i hposs
  obtain ⟨⟨f', calls⟩, hpre, rfl⟩ := Option.map_eq_some_iff.mp h
  have hfresh : ∀ fd, calls = [.socket fd] → fd ∉ s.descriptors := by
    rintro fd rfl
    obtain ⟨-, nobio, connect, ho⟩ := socket_of hpre
    rw [ho] at hposs
    unfold possible at hposs
    rw [hst] at hposs
    simpa using hposs
  refine ⟨f', calls, rfl, ?_, ?_⟩
  · cases TcpClientFSM.pre_of hpre with
    | idle hs _ => exact absurd hst hs
    | failed _ hs' _ | ends _ hs' _ _ =>
      refine ⟨?_, fun hne => absurd hs' hne⟩
      rw [hs']
      nofun
    | connecting _ hs' hsock _ _ _ =>
      refine ⟨?_, fun _ => ?_⟩
      · rw [hs']
        nofun
      · rw [hsock]
        rfl
  · cases TcpClientFSM.pre_of hpre with
    | idle hs _ => exact absurd hst hs
    | failed _ _ hsock => exact hk.same hf hsock Quiet.onClose
    | ends _ _ hsock _ => exact hk.opens hf hnone hsock (hfresh _ rfl) hroom
    | connecting _ _ hsock _ _ _ => exact hk.opens hf hnone hsock (hfresh _ rfl) hroom

theorem owned_length (s : Impatient) : s.owned.length = s.vecsocketfsm.countP isconnecting := by
  unfold Impatient.owned
  rw [Slots.length_held]
  congr 1
  funext x
  cases x <;> rfl

theorem handed_none (h : s.retsocket = none) : s.handed = [] := by
  unfold Impatient.handed
  rw [h]
  rfl

theorem Between.within (h : Between c s) : Within c s 0 where
  running := h.running
  kept := h.kept
  size := h.size
  waiting := h.waiting
  todo i _ hi f hf := (h.live i hi f hf).1
  done _ := nofun
  found fd hfd := by
    rw [h.searching] at hfd
    cases hfd

theorem before_range {u : Impatient} {n : Nat}
    (h : ∀ k < n, ∀ f, u.at_ k = some f → f.status_ ≠ .EStart)
    (hs' : exec (before t) u (List.range n) = some s') : s' = u := by
  refine exec_range (P := fun _ w => w = u) ?_ rfl hs'
  intro k hk w w' hw hstep
  rw [hw, before_idle (h k hk)] at hstep
  exact (Option.some.inj hstep).symm

theorem before_begins (h : Between c s) {u : Impatient} (hvec : u.vecsocketfsm = s.vecsocketfsm)
    (hlog : u.log = s.log) (hrun : u.returned = false) (hret : u.retsocket = none)
    (hidx : u.index = s.index + 1)
    (hroom : s.vecsocketfsm.countP isconnecting < c.max_connect_.toNat)
    (hs' : exec (before t) u (List.range u.index) = some s') :
    Within c s' 0 ∧ s'.retsocket = none := by
  have hat : ∀ i, u.at_ i = s.at_ i := by
    intro i
    unfold Impatient.at_
    rw [hvec]
  have howned : u.owned ++ u.handed = s.owned ++ s.handed := by
    rw [handed_none hret, handed_none h.searching]
    unfold Impatient.owned
    rw [hvec]
  have hkept : Kept c u := by
    unfold Kept
    rw [howned, hlog]
    exact h.kept
  rw [hidx, List.range_succ, exec_append] at hs'
  obtain ⟨v, hv, hnew⟩ := Option.bind_eq_some_iff.mp hs'
  obtain ⟨w, hw, hlast⟩ := Option.bind_eq_some_iff.mp hnew
  cases hlast
  rw [before_range (fun k hk f hf => (h.live k hk f ((hat k).symm.trans hf)).1.1) hv] at hw
  have hold : ∀ i < s.index, ∀ f, u.at_ i = some f → Begun f :=
    fun i hi f hf => (h.live i hi f ((hat i).symm.trans hf)).1
  have hrest : ∀ i, s.index ≤ i → ∀ f, u.at_ i = some f → Waiting f :=
    fun i hi f hf => h.waiting i hi f ((hat i).symm.trans hf)
  cases hf : u.at_ s.index with
  | none =>
    rw [before_idle (fun f hf' => nomatch hf.symm.trans hf')] at hw
    cases hw
    refine ⟨⟨hrun, hkept, hvec ▸ h.size, ?_, ?_, fun _ => nofun, ?_⟩, hret⟩
    · intro i hi
      exact hrest i (by omega)
    · intro i _ hi f' hf'
      rcases Nat.lt_or_eq_of_le (Nat.le_of_lt_succ (hidx ▸ hi)) with hlt | rfl
      · exact hold i hlt f' hf'
      · cases hf.symm.trans hf'
    · intro fd hfd
      rw [hret] at hfd
      cases hfd
  | some f =>
    have hlen : (u.owned ++ u.handed).length < c.max_connect_.toNat := by
      rw [howned, handed_none h.searching, List.append_nil, owned_length]
      exact hroom
    obtain ⟨f', calls, rfl, hb, hk⟩ := before_new hkept hf (hrest _ le_rfl f hf) hlen hw
    refine ⟨⟨hrun, hk, ?_, ?_, ?_, fun _ => nofun, ?_⟩, hret⟩
    · show (u.vecsocketfsm.set s.index (some f')).length = _
      rw [List.length_set, hvec, h.size]
    · intro i hi g hg
      have hi' : u.index ≤ i := hi
      rw [at_put_ne (by omega)] at hg
      exact hrest i (by omega) g hg
    · intro i _ hi g hg
      have hi' : i < s.index + 1 := hidx ▸ hi
      rcases Nat.lt_or_eq_of_le (Nat.le_of_lt_succ hi') with hlt | rfl
      · rw [at_put_ne (by omega)] at hg
        exact hold i hlt g hg
      · rw [at_put_self hf] at hg
        cases hg
        exact hb
    · intro fd hfd
      cases hret.symm.trans hfd

theorem before_pass (h : Between c s)
    (hs' : exec (before t) (pace c s t) (List.range (pace c s t).index) = some s') :
    Within c s' 0 ∧ s'.retsocket = none := by
  unfold pace at hs'
  dsimp only at hs'
  split at hs'
  · rename_i hgo
    refine before_begins h ?_ ?_ ?_ ?_ ?_ hgo.2.2 hs'
    · rfl
    · rfl
    · exact h.running
    · exact h.searching
    · rfl
  · rw [before_range (fun k hk f hf => (h.live k hk f hf).1.1) hs']
    exact ⟨h.within, h.searching⟩

/-- `AfterSelect` makes a machine that was begun end or go on -/
theorem afterSelect_begun {V : Virtual Check Answers} {o : Selected Answers} {calls : List FsmCall}
    (hb : Begun f) (h : f.afterSelect V o = some (f', calls)) :
    f'.sock_ = f.sock_ ∧ Quiet calls ∧ Begun f' := by
  unfold TcpClientFSM.afterSelect at h
  obtain ⟨g, hg, he⟩ := Option.map_eq_some_iff.mp h
  cases he
  have hq : Quiet f'.report := Quiet.onClose.ite
  cases TcpClientFSM.advance_of hg with
  | idle _ he =>
    subst he
    exact ⟨rfl, hq, hb⟩
  | on hs hs' hsock _ _ =>
    refine ⟨hsock, hq, ?_, ?_⟩
    · rcases hs' with hs' | hs' <;> rw [hs'] <;> nofun
    · intro _
      rw [hsock]
      refine hb.2 ?_
      rcases hs with hs | hs <;> rw [hs] <;> nofun
  | ends _ hs' _ hsock =>
    refine ⟨hsock, hq, ?_, fun hne => absurd hs' hne⟩
    rw [hs']
    nofun

theorem Within.next (h : Within c s k) (hk : k < s.index) (hkept : Kept c s')
    (hrun : s'.returned = s.returned)
    (hsize : s'.vecsocketfsm.length = s.vecsocketfsm.length) (hidx : s'.index = s.index)
    (hother : ∀ j, k ≠ j → s'.at_ j = s.at_ j) (hret : s'.retsocket = none → s.retsocket = none)
    (hself : s'.retsocket = none → ∀ f, s'.at_ k = some f → Live f)
    (hfound : ∀ fd, s'.retsocket = some fd → ∃ i < c._vecaddr.length, s'.index_ = (i : Nat)) :
    Within c s' (k + 1) where
  running := hrun.trans h.running
  kept := hkept
  size := hsize.trans h.size
  waiting i hi f hf := by
    rw [hidx] at hi
    rw [hother i (by omega)] at hf
    exact h.waiting i hi f hf
  todo i hki hi f hf := by
    rw [hidx] at hi
    rw [hother i (by omega)] at hf
    exact h.todo i (by omega) hi f hf
  done hnone i hi f hf := by
    rcases Nat.lt_or_eq_of_le (Nat.le_of_lt_succ hi) with hlt | rfl
    · rw [hother i (by omega)] at hf
      exact h.done (hret hnone) i hlt f hf
    · exact hself hnone f hf
  found := hfound

theorem finished_same (c : Setup) (s : Impatient) (i : Nat) (f : TcpClientFSM Check) :
    (finished c s i f).vecsocketfsm = s.vecsocketfsm ∧ (finished c s i f).index = s.index ∧
      (finished c s i f).retsocket = s.retsocket ∧ (finished c s i f).returned = s.returned := by
  unfold finished
  split <;> exact ⟨rfl, rfl, rfl, rfl⟩

theorem after_step (h : Within c s k) (hk : k < s.index) (hs' : after c t s k = some s') :
    Within c s' (k + 1) ∧ s'.index = s.index := by
  unfold after at hs'
  split at hs'
  swap
  · rename_i hno
    cases hs'
    refine ⟨h.next hk h.kept rfl rfl rfl (fun _ _ => rfl) id ?_ h.found, rfl⟩
    intro hret f hf
    obtain ⟨hlen, -⟩ := List.getElem?_eq_some_iff.mp (at_some hf)
    exact (hno f _ hf (List.getElem?_eq_getElem (h.size ▸ hlen)) hret).elim
  rename_i f a hf ha hret
  obtain ⟨⟨g, calls⟩, hg, rfl⟩ := Option.map_eq_some_iff.mp hs'
  obtain ⟨hsock, hq, hb⟩ := afterSelect_begun (h.todo k le_rfl hk f hf) hg
  have hkept : Kept c (s.put k (some g) calls) := h.kept.same hf hsock hq
  have hgat : (s.put k (some g) calls).at_ k = some g := at_put_self hf _ _
  obtain ⟨hvec, hidx, hret', hrun⟩ := finished_same c (s.put k (some g) calls) k g
  have hlen : (finished c (s.put k (some g) calls) k g).vecsocketfsm.length =
      s.vecsocketfsm.length := by
    rw [hvec]
    exact List.length_set
  have hat : ∀ j, (finished c (s.put k (some g) calls) k g).at_ j = (s.put k (some g) calls).at_ j := by
    intro j
    unfold Impatient.at_
    rw [hvec]
  have hother : ∀ j, k ≠ j → (finished c (s.put k (some g) calls) k g).at_ j = s.at_ j := by
    intro j hj
    rw [hat, at_put_ne hj]
  have hfin := (hat k).trans hgat
  dsimp only
  split
  · have hdel := hkept.finished.deletes hfin true
    refine ⟨h.next hk hdel hrun ?_ hidx ?_ (fun _ => hret) ?_ ?_, hidx⟩
    · exact List.length_set.trans hlen
    · intro j hj
      exact (at_delete_ne hj (g.close true).1 (g.close true).2).trans (hother j hj)
    · intro _ f' hf'
      cases (at_delete_self (f := (g.close true).1) hfin (g.close true).2).symm.trans hf'
    · intro fd hfd
      cases (hret'.trans hret).symm.trans hfd
  split
  · rename_i hok
    have hsome : g.sock_.isSome = true := hb.2 (by rw [hok.1]; nofun)
    obtain ⟨fd, hfd⟩ := Option.isSome_iff_exists.mp hsome
    have hhand := hkept.finished.hands hfin hfd (hret'.trans hret)
    refine ⟨h.next hk hhand hrun ?_ hidx ?_ (fun _ => hret) ?_ ?_, hidx⟩
    · exact List.length_set.trans hlen
    · intro j hj
      exact (at_delete_ne hj { g with sock_ := none } []).trans (hother j hj)
    · intro _ f' hf'
      cases (at_delete_self (f := { g with sock_ := none }) hfin []).symm.trans hf'
    · intro _ _
      obtain ⟨hklen, -⟩ := List.getElem?_eq_some_iff.mp ha
      exact ⟨k, hklen, rfl⟩
  · rename_i hno _
    refine ⟨h.next hk hkept rfl ?_ rfl ?_ id ?_ ?_, rfl⟩
    · exact List.length_set
    · intro j hj
      exact at_put_ne hj _ _
    · intro _ f' hf'
      cases hgat.symm.trans hf'
      exact ⟨hb, fun he => hno (Or.inl he)⟩
    · exact h.found

theorem after_pass (h : Within c s 0) (hs' : exec (after c t) s (List.range s.index) = some s') :
    Within c s' s'.index := by
  have hall : Within c s' s.index ∧ s'.index = s.index := by
    refine exec_range (P := fun k u => Within c u k ∧ u.index = s.index) ?_ ⟨h, rfl⟩ hs'
    rintro k hk u u' ⟨hu, hidx⟩ hstep
    obtain ⟨hu', hidx'⟩ := after_step hu (hidx.symm ▸ hk) hstep
    exact ⟨hu', hidx'.trans hidx⟩
  rw [hall.2]
  exact hall.1

/-! ## the end -/

structure Returned (c : Setup) (s : Impatient) : Prop where
  ended : s.returned = true
  kept : Kept c s
  empty : ∀ f ∈ s.vecsocketfsm, f = none
  found : ∀ fd, s.retsocket = some fd → ∃ i < c._vecaddr.length, s.index_ = (i : Nat)

theorem closeOne_keeps (h : Kept c s) : Kept c (closeOne s i) ∧
    (closeOne s i).vecsocketfsm.length = s.vecsocketfsm.length ∧
    (closeOne s i).retsocket = s.retsocket ∧ (closeOne s i).index_ = s.index_ ∧
    (closeOne s i).at_ i = none ∧ ∀ j, i ≠ j → (closeOne s i).at_ j = s.at_ j := by
  unfold closeOne
  split
  · rename_i hf
    exact ⟨h, rfl, rfl, rfl, hf, fun _ _ => rfl⟩
  · rename_i f hf
    exact ⟨h.deletes hf _, List.length_set, rfl, rfl, at_delete_self hf _,
      fun j hj => at_delete_ne hj _ _⟩

theorem closeAll_returned (h : Within c s k) : Returned c (closeAll s) := by
  have hall : ∀ n, ∀ u, u = (List.range n).foldl closeOne s →
      Kept c u ∧ u.vecsocketfsm.length = s.vecsocketfsm.length ∧ u.retsocket = s.retsocket ∧
        u.index_ = s.index_ ∧ ∀ j < n, u.at_ j = none := by
    intro n
    induction n with
    | zero =>
      rintro u rfl
      exact ⟨h.kept, rfl, rfl, rfl, nofun⟩
    | succ n ih =>
      intro u hu
      rw [List.range_succ, List.foldl_append] at hu
      obtain ⟨hk, hlen, hret, hidx, hnone⟩ := ih _ rfl
      obtain ⟨hk', hlen', hret', hidx', hself, hother⟩ := closeOne_keeps (i := n) hk
      rw [hu]
      refine ⟨hk', hlen'.trans hlen, hret'.trans hret, hidx'.trans hidx, ?_⟩
      intro j hj
      rcases Nat.lt_or_eq_of_le (Nat.le_of_lt_succ hj) with hlt | rfl
      · exact (hother j (by omega)).trans (hnone j hlt)
      · exact hself
  obtain ⟨hk, hlen, hret, hidx, hnone⟩ := hall _ _ rfl
  refine ⟨rfl, hk, ?_, ?_⟩
  · intro f hf
    obtain ⟨j, hj, he⟩ := List.getElem_of_mem hf
    have hat : (closeAll s).at_ j = none := hnone j (hlen ▸ hj)
    unfold Impatient.at_ at hat
    rw [List.getElem?_eq_getElem hj] at hat
    exact he.symm.trans hat
  · intro fd hfd
    obtain ⟨i, hi, he⟩ := h.found fd (hret.symm.trans hfd)
    exact ⟨i, hi, hidx.trans he⟩

/-- **A turn of the loop keeps the book, and so does the return.** -/
theorem turn_keeps (h : Between c s) (hs' : turn c s t = some s') :
    Between c s' ∨ Returned c s' := by
  unfold turn at hs'
  split at hs'
  · cases hs'
  obtain ⟨u, hu, hs'⟩ := Option.bind_eq_some_iff.mp hs'
  obtain ⟨hw, hret⟩ := before_pass h hu
  split at hs'
  · cases hs'
    exact Or.inr (closeAll_returned hw)
  obtain ⟨v, hv, rfl⟩ := Option.map_eq_some_iff.mp hs'
  have hv' := after_pass hw hv
  split
  · exact Or.inr (closeAll_returned hv')
  · rename_i hno
    have hnone : v.retsocket = none := by
      rw [← Option.not_isSome_iff_eq_none]
      exact fun hsome => hno (Or.inr hsome)
    exact Or.inl ⟨hv'.running, hv'.kept, hv'.size, hv'.waiting, hv'.done hnone, hnone⟩

theorem begin_at {curtime : UInt64} (hf : (begin c curtime).at_ i = some f) : Waiting f := by
  have hget := at_some hf
  obtain ⟨j, -, hj⟩ := List.mem_map.mp (List.mem_of_getElem? hget)
  cases hj
  unfold Setup.ic
  split <;> exact ⟨rfl, rfl⟩

theorem begin_kept (c : Setup) (curtime : UInt64) : Kept c (begin c curtime) := by
  refine ⟨[], Books.nil _, ?_⟩
  have howned : (begin c curtime).owned = [] := by
    refine Slots.held_empty _ ?_
    intro x hx
    obtain ⟨j, -, rfl⟩ := List.mem_map.mp hx
    show (c.ic j).sock_ = none
    unfold Setup.ic
    split <;> rfl
  rw [howned]
  exact List.Perm.refl _

theorem begin_between (c : Setup) (curtime : UInt64) :
    Between c (begin c curtime) ∨ Returned c (begin c curtime) := by
  cases hr : c._vecaddr.isEmpty with
  | false =>
    refine Or.inl ⟨hr, begin_kept c curtime, ?_, ?_, nofun, rfl⟩
    · show ((List.range _).map _).length = _
      rw [List.length_map, List.length_range]
    · intro i _ f hf
      exact begin_at hf
  | true =>
    refine Or.inr ⟨hr, begin_kept c curtime, ?_, nofun⟩
    intro f hf
    unfold begin at hf
    rw [List.isEmpty_iff.mp hr] at hf
    cases hf

theorem run_keeps {curtime : UInt64} {turns : List Turn}
    (h : exec (turn c) (begin c curtime) turns = some s) : Between c s ∨ Returned c s := by
  refine (Run.of_exec h).keep (P := fun u => Between c u ∨ Returned c u) ?_ (begin_between c curtime)
  rintro u t u' (hu | hu) - hstep
  · exact turn_keeps hu hstep
  · unfold turn at hstep
    rw [if_pos hu.ended] at hstep
    cases hstep

theorem Returned.books (h : Returned c s) : exec record [] (s.log.map Call.deal) = some s.handed := by
  obtain ⟨t, ht, hp⟩ := h.kept
  have howned : s.owned = [] := by
    refine Slots.held_empty _ ?_
    intro x hx
    rw [h.empty x hx]
    rfl
  rw [howned, List.nil_append] at hp
  rw [ht.book]
  cases hret : s.retsocket with
  | none =>
    rw [handed_none hret] at hp ⊢
    rw [hp.eq_nil]
  | some fd =>
    have hone : s.handed = [(s.index_.toNat, fd)] := by
      unfold Impatient.handed
      rw [hret]
      rfl
    rw [hone] at hp ⊢
    rw [List.perm_singleton.mp hp]

end

/-- **`ConnectImpatient` never has more than `max_connect_` sockets open; each one is closed once by
its machine, but for the one that is returned, which is for the address at `index_`.** -/
theorem connectImpatient_sockets (c : Setup) (curtime : UInt64) (turns : List Turn) (s : Impatient)
    (h : exec (turn c) (begin c curtime) turns = some s) :
    (∀ l, l <+: s.log.map Call.deal →
      ∃ t, exec record [] l = some t ∧ t.length ≤ c.max_connect_.toNat) ∧
    (s.returned = true → (∀ f ∈ s.vecsocketfsm, f = none) ∧
      match s.retsocket with
      | none => exec record [] (s.log.map Call.deal) = some []
      | some fd => ∃ i : Nat, i < c._vecaddr.length ∧ s.index_ = i ∧
          exec record [] (s.log.map Call.deal) = some [(i, fd)]) := by
  have hkeep := run_keeps h
  constructor
  · rcases hkeep with hb | hr
    · obtain ⟨t, ht, -⟩ := hb.kept
      exact ht.within
    · obtain ⟨t, ht, -⟩ := hr.kept
      exact ht.within
  · intro hret
    have hr : Returned c s := by
      rcases hkeep with hb | hr
      · cases hret.symm.trans hb.running
      · exact hr
    refine ⟨hr.empty, ?_⟩
    have hbook := hr.books
    unfold Impatient.handed at hbook
    cases hs : s.retsocket with
    | none =>
      rw [hs] at hbook
      exact hbook
    | some fd =>
      obtain ⟨i, hi, hidx⟩ := hr.found fd hs
      rw [hs, hidx] at hbook
      exact ⟨i, hi, hidx, hbook⟩

def twoAddresses : Setup := ⟨100, 100, 2, [⟨[], [], 80⟩, ⟨[], [], 81⟩], false, .kProxyNone, [], [],
  fun _ => false⟩

/-- the first address is refused, the second one connects under the same descriptor -/
def twoTurns : List Turn := [
  ⟨100, 100, fun _ => .made 7 none (some 111), .ready, fun _ => {}⟩,
  ⟨100, 100, fun _ => .made 7 none none, .ready, fun _ => {}⟩,
  ⟨250, 250, fun _ => .made 7 none none, .ready, fun _ => { write := some (.again, {}) }⟩]

theorem connectImpatient_sockets_two : ∃ s, exec (turn twoAddresses) (begin twoAddresses 100) twoTurns =
    some s ∧ s.retsocket = some 7 ∧ s.index_ = 1 ∧
    (∀ l, l <+: s.log.map Call.deal → ∃ t, exec record [] l = some t ∧ t.length ≤ 2) ∧
    (∀ f ∈ s.vecsocketfsm, f = none) ∧ exec record [] (s.log.map Call.deal) = some [(1, 7)] := by
  obtain ⟨s, hs, hret, hidx, hend⟩ : ∃ s, exec (turn twoAddresses) (begin twoAddresses 100) twoTurns =
      some s ∧ s.retsocket = some 7 ∧ s.index_ = 1 ∧ s.returned = true := by
    have h : (exec (turn twoAddresses) (begin twoAddresses 100) twoTurns).any
        (fun s => s.retsocket == some 7 && s.index_ == 1 && s.returned) = true := by decide +kernel
    obtain ⟨s, hs, hp⟩ := (Option.any_eq_true _ _).mp h
    simp only [Bool.and_eq_true, beq_iff_eq] at hp
    exact ⟨s, hs, hp.1.1, hp.1.2, hp.2⟩
  obtain ⟨hopen, hdone⟩ := connectImpatient_sockets twoAddresses 100 twoTurns s hs
  obtain ⟨hempty, hbook⟩ := hdone hend
  rw [hret] at hbook
  obtain ⟨i, -, hi, hbook⟩ := hbook
  obtain rfl : i = 1 := by
    rw [hidx] at hi
    exact (Nat.cast_inj.mp hi).symm
  exact ⟨s, hs, hret, hidx, hopen, hempty, hbook⟩

end ComplexConnect
