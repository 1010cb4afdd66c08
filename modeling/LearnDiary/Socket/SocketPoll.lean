import LearnDiary.Lib.Elements
import LearnDiary.Socket.SocketBreaker
import Mathlib.Data.List.Nodup

/-!
# `SocketPoll`: polling for others (comm/unix/socket/socketpoll.cc)

A `SocketPoll` can hand its entries to a host (`Consign`) that polls for several; `ConsignReport`
then walks the host's entries and the consignor's side by side and writes the outcome back.

* `run_nodup`      every entry of a consignor has a file descriptor of its own;
* `reportLoop_eq`  the walk, as long as it does not meet the breaker's descriptor;
* `shifted_iff`    after a breaker that is ready every entry gets the outcome of the one before it;
* `consigned_iff`  when the consignor ends as if it had polled itself.
-/

/-- `struct pollfd` -/
structure PollFd where
  fd : Int
  events : BitVec 16
  revents : BitVec 16 := 0
deriving DecidableEq

def PollFd.put (e : PollFd) (revents : BitVec 16) : PollFd := { e with revents }

def POLLIN : BitVec 16 := 1
def POLLOUT : BitVec 16 := 4
def POLLERR : BitVec 16 := 8
def POLLHUP : BitVec 16 := 16
def POLLNVAL : BitVec 16 := 32

structure PollEvent where
  poll_event_ : PollFd
  user_data_ : Option Nat
deriving DecidableEq

def PollEvent.readable (e : PollEvent) : Bool := e.poll_event_.revents &&& POLLIN != 0

structure SocketPoll where
  breaker_ : SocketBreaker
  autoclear_ : Bool := false
  events_ : List PollFd
  /-- an address that is not there reads as `NULL` -/
  events_user_data_ : Int → Option Nat := fun _ => none
  triggered_events_ : List PollEvent := []
  ret_ : Int := 0
  errno_ : Int := 0

/-- how a `poll` ends: with an error, or with these `revents` of its entries -/
inductive PollOutcome where
  | error (errno : Int)
  | ready (revents : List (BitVec 16))
deriving DecidableEq

namespace PollOutcome

/-- the `revents` of `n` entries -/
def revents (n : Nat) : PollOutcome → List (BitVec 16)
  | .error _ => List.replicate n 0
  | .ready rs => rs

/-- what `poll` returns -/
def ret : PollOutcome → Int
  | .error _ => -1
  | .ready rs => (rs.countP (· != 0) : Nat)

def errno : PollOutcome → Int
  | .error errno => errno
  | .ready _ => 0

/-- the outcome for the `n` entries from `k` on -/
def part (k n : Nat) : PollOutcome → PollOutcome
  | .error errno => .error errno
  | .ready rs => .ready ((rs.drop k).take n)

end PollOutcome

namespace SocketPoll
open Runs

def new (breaker : SocketBreaker) (_autoclear : Bool) : SocketPoll :=
  { breaker_ := breaker, autoclear_ := _autoclear, events_ := [⟨breaker.pipes_.1, POLLIN, 0⟩] }

def find (s : SocketPoll) (_fd : Int) : Nat := s.events_.findIdx (fun v => v.fd == _fd)

def addEvent (s : SocketPoll) (_fd : Int) (_read _write : Bool) (_user_data : Option Nat) :
    SocketPoll :=
  let add_event : PollFd :=
    ⟨_fd, (if _read then POLLIN else 0) ||| (if _write then POLLOUT else 0), 0⟩
  let k := s.find _fd
  { s with
    events_ := if k = s.events_.length then s.events_ ++ [add_event] else s.events_.set k add_event
    events_user_data_ := Function.update s.events_user_data_ _fd _user_data }

/-- `ReadEvent` and `WriteEvent`: a bit of the entry is set or cleared -/
def setEvent (s : SocketPoll) (bit : BitVec 16) (_fd : Int) (_active : Bool) (add : SocketPoll) :
    SocketPoll :=
  let k := s.find _fd
  if k = s.events_.length then add
  else
    { s with events_ := s.events_.modify k fun e =>
        { e with events := if _active then e.events ||| bit else e.events &&& ~~~bit } }

def readEvent (s : SocketPoll) (_fd : Int) (_active : Bool) : SocketPoll :=
  s.setEvent POLLIN _fd _active (s.addEvent _fd _active false none)

def writeEvent (s : SocketPoll) (_fd : Int) (_active : Bool) : SocketPoll :=
  s.setEvent POLLOUT _fd _active (s.addEvent _fd false _active none)

def nullEvent (s : SocketPoll) (_fd : Int) : SocketPoll :=
  if s.find _fd = s.events_.length then s.addEvent _fd false false none else s

def delEvent (s : SocketPoll) (_fd : Int) : SocketPoll :=
  { s with
    events_ := s.events_.eraseIdx (s.find _fd)
    events_user_data_ := Function.update s.events_user_data_ _fd none }

/-- there is no outcome without a first entry: `begin() + 1` is behind the end -/
def clearEvent (s : SocketPoll) : Option SocketPoll :=
  match s.events_ with
  | [] => none
  | e :: _ => some { s with events_ := [e], events_user_data_ := fun _ => none }

/-- `if (autoclear_) Breaker().Clear()`; `r` is what `read` gives -/
def autoclear (s : SocketPoll) (r : Int) : SocketPoll :=
  if s.autoclear_ then { s with breaker_ := (s.breaker_.clear r).1 } else s

def event (s : SocketPoll) (e : PollFd) : PollEvent := ⟨e, s.events_user_data_ e.fd⟩

/-- `Poll`, by the outcome of the system's `poll`; none for `&events_[0]` of no entries and for an
outcome of other entries -/
def poll (s : SocketPoll) (o : PollOutcome) (r : Int) : Option SocketPoll :=
  let s := { s with
    triggered_events_ := [], errno_ := 0, ret_ := 0, events_ := s.events_.map (PollFd.put · 0) }
  if s.events_ = [] then none
  else
    match o with
    | .error errno => some ({ s with ret_ := -1, errno_ := errno }.autoclear r)
    | .ready revents =>
      if revents.length = s.events_.length then
        let events := List.zipWith PollFd.put s.events_ revents
        let s := { s with events_ := events, ret_ := (revents.countP (· != 0) : Nat) }
        let fired := (events.tail.filter fun e => e.revents != 0).map s.event
        some ({ s with triggered_events_ := if s.ret_ = 0 then [] else fired }.autoclear r)
      else none

def breakerIsBreak (s : SocketPoll) : Bool := s.events_.head?.any fun e => e.revents &&& POLLIN != 0

/-- `Consign`; none where the consignor has no first entry -/
def consign (s _consignor : SocketPoll) (_recover : Bool) : Option (SocketPoll × Bool) :=
  _consignor.events_.head?.map fun e0 =>
    let it := s.find e0.fd
    if _recover then
      if it = s.events_.length then (s, false)
      else
        ({ s with events_ := s.events_.take it ++ s.events_.drop (it + _consignor.events_.length) },
          true)
    else if it ≠ s.events_.length then (s, false)
    else ({ s with events_ := s.events_ ++ _consignor.events_ }, true)

/-- what the loop of `ConsignReport` makes of the consignor's entries: them, the triggered ones and
`triggered_event_count` -/
structure Report where
  events : List PollFd
  triggered : List PollFd
  count : Nat
deriving DecidableEq

/-- the loop over the consignor's entries with `find_it` at the first of the host's; none where it
runs off the end -/
def reportLoop (fd0 : Int) : List PollFd → List PollFd → Option Report
  | _, [] => some ⟨[], [], 0⟩
  | [], _ :: _ => none
  | f :: fs, i :: is =>
    if f.revents ≠ 0 then
      let i' := i.put f.revents
      if i.fd = fd0 then
        (reportLoop fd0 (f :: fs) is).map fun t => ⟨i' :: t.events, t.triggered, t.count + 1⟩
      else
        (reportLoop fd0 fs is).map fun t => ⟨i' :: t.events, i' :: t.triggered, t.count + 1⟩
    else (reportLoop fd0 fs is).map fun t => { t with events := i :: t.events }

/-- the end of `ConsignReport`, behind the loop -/
def settle (s _consignor : SocketPoll) (_timeout r : Int) (t : Report) : SocketPoll × Bool :=
  let c := { _consignor with
    events_ := t.events
    triggered_events_ := _consignor.triggered_events_ ++ t.triggered.map _consignor.event }
  if s.ret_ < 0 then ({ c with ret_ := s.ret_, errno_ := s.errno_ }.autoclear r, true)
  else if 0 < t.count then ({ c with ret_ := t.count, errno_ := 0 }.autoclear r, true)
  else if _timeout ≤ 0 then ({ c with ret_ := 0, errno_ := s.errno_ }.autoclear r, true)
  else (c, false)

/-- `ConsignReport`: the consignor afterwards, and whether it is done -/
def consignReport (s _consignor : SocketPoll) (_timeout r : Int) : Option (SocketPoll × Bool) :=
  match _consignor.events_.head? with
  | none => none
  | some e0 =>
    let it := s.find e0.fd
    if it = s.events_.length then some (_consignor, false)
    else
      (reportLoop e0.fd (s.events_.drop it) _consignor.events_).map
        (s.settle _consignor _timeout r)

/-- what is done with a `SocketPoll` that hosts no other -/
inductive Call where
  | addEvent (_fd : Int) (_read _write : Bool) (_user_data : Option Nat)
  | readEvent (_fd : Int) (_active : Bool)
  | writeEvent (_fd : Int) (_active : Bool)
  | nullEvent (_fd : Int)
  | delEvent (_fd : Int)
  | clearEvent
  | poll (o : PollOutcome) (r : Int)
  | report (host : SocketPoll) (_timeout r : Int)
  | breaker (a : SocketBreaker.Act)

def step (s : SocketPoll) : Call → Option SocketPoll
  | .addEvent fd read write user => some (s.addEvent fd read write user)
  | .readEvent fd active => some (s.readEvent fd active)
  | .writeEvent fd active => some (s.writeEvent fd active)
  | .nullEvent fd => some (s.nullEvent fd)
  | .delEvent fd => some (s.delEvent fd)
  | .clearEvent => s.clearEvent
  | .poll o r => s.poll o r
  | .report host timeout r => (host.consignReport s timeout r).map Prod.fst
  | .breaker a => (s.breaker_.step a).map fun b => { s with breaker_ := b }

/-! ## the descriptors -/

def fds (s : SocketPoll) : List Int := s.events_.map PollFd.fd

section
variable {s s' : SocketPoll} {fd : Int} {r : Int}

theorem autoclear_events (s : SocketPoll) (r : Int) : (s.autoclear r).events_ = s.events_ := by
  unfold autoclear
  split <;> rfl

theorem autoclear_triggered (s : SocketPoll) (r : Int) :
    (s.autoclear r).triggered_events_ = s.triggered_events_ := by
  unfold autoclear
  split <;> rfl

theorem autoclear_ret (s : SocketPoll) (r : Int) : (s.autoclear r).ret_ = s.ret_ := by
  unfold autoclear
  split <;> rfl

theorem find_fds (s : SocketPoll) (fd : Int) : s.find fd = s.fds.findIdx (· == fd) := by
  unfold find fds
  rw [List.findIdx_map]
  rfl

theorem find_end (h : s.find fd = s.events_.length) : fd ∉ s.fds := by
  intro hm
  rw [find_fds] at h
  have hlt := List.findIdx_lt_length_of_exists (p := (· == fd)) ⟨fd, hm, beq_self_eq_true fd⟩
  rw [h] at hlt
  unfold fds at hlt
  rw [List.length_map] at hlt
  exact Nat.lt_irrefl _ hlt

theorem find_le (s : SocketPoll) (fd : Int) : s.find fd ≤ s.events_.length := List.findIdx_le_length

theorem find_at (h : s.find fd ≠ s.events_.length) :
    ∃ e, s.events_[s.find fd]? = some e ∧ e.fd = fd := by
  have hlt : s.find fd < s.events_.length := Nat.lt_of_le_of_ne (s.find_le fd) h
  refine ⟨_, List.getElem?_eq_getElem hlt, ?_⟩
  exact beq_iff_eq.mp (List.findIdx_getElem (p := fun v : PollFd => v.fd == fd) (w := hlt))

theorem addEvent_fds (s : SocketPoll) (fd : Int) (read write : Bool) (user : Option Nat) :
    (s.addEvent fd read write user).fds = s.fds ∨
      (fd ∉ s.fds ∧ (s.addEvent fd read write user).fds = s.fds ++ [fd]) := by
  unfold addEvent fds
  dsimp only
  split
  · rename_i hend
    exact Or.inr ⟨find_end hend, List.map_append⟩
  · rename_i hend
    obtain ⟨e, he, hfd⟩ := find_at hend
    exact Or.inl (Elements.map_set_same he hfd.symm)

theorem setEvent_fds (s : SocketPoll) (bit : BitVec 16) (fd : Int) (active : Bool)
    (add : SocketPoll) :
    (s.setEvent bit fd active add).fds = s.fds ∨ s.setEvent bit fd active add = add := by
  unfold setEvent
  dsimp only
  split
  · exact Or.inr rfl
  · refine Or.inl (Elements.map_modify_same (fun e => ?_) _ _)
    rfl

theorem zipWith_put_fds {es : List PollFd} {rs : List (BitVec 16)} (h : rs.length = es.length) :
    (List.zipWith PollFd.put es rs).map PollFd.fd = es.map PollFd.fd := by
  induction es generalizing rs with
  | nil => rfl
  | cons e es ih =>
    cases rs with
    | nil => cases h
    | cons r rs =>
      rw [List.zipWith_cons_cons, List.map_cons, List.map_cons, ih (Nat.succ.inj h)]
      rfl

theorem reportLoop_fds {fd0 : Int} {fs is : List PollFd} {t : Report}
    (h : reportLoop fd0 fs is = some t) : t.events.map PollFd.fd = is.map PollFd.fd := by
  induction is generalizing fs t with
  | nil =>
    unfold reportLoop at h
    cases h
    rfl
  | cons i is ih =>
    cases fs with
    | nil =>
      unfold reportLoop at h
      cases h
    | cons f fs =>
      unfold reportLoop at h
      split at h
      · split at h
        all_goals
          obtain ⟨u, hu, rfl⟩ := Option.map_eq_some_iff.mp h
          rw [List.map_cons, List.map_cons, ih hu]
          rfl
      · obtain ⟨u, hu, rfl⟩ := Option.map_eq_some_iff.mp h
        rw [List.map_cons, List.map_cons, ih hu]

theorem addEvent_nodup (h : s.fds.Nodup) (fd : Int) (read write : Bool) (user : Option Nat) :
    (s.addEvent fd read write user).fds.Nodup := by
  rcases s.addEvent_fds fd read write user with he | ⟨hnew, he⟩
  · rw [he]
    exact h
  · rw [he]
    exact List.nodup_append_comm.mpr (List.nodup_cons.mpr ⟨hnew, h⟩)

theorem setEvent_nodup {bit : BitVec 16} {active : Bool} {add : SocketPoll} (h : s.fds.Nodup)
    (hadd : add.fds.Nodup) : (s.setEvent bit fd active add).fds.Nodup := by
  rcases s.setEvent_fds bit fd active add with he | he
  · rw [he]
    exact h
  · rw [he]
    exact hadd

theorem poll_fds {o : PollOutcome} (h : s.poll o r = some s') : s'.fds = s.fds := by
  have hput : (s.events_.map (PollFd.put · 0)).map PollFd.fd = s.fds := by
    rw [List.map_map]
    rfl
  unfold poll at h
  dsimp only at h
  split at h
  · cases h
  split at h
  · cases h
    unfold fds
    rw [autoclear_events]
    exact hput
  · split at h
    · rename_i hlen
      cases h
      unfold fds
      rw [autoclear_events]
      exact (zipWith_put_fds hlen).trans hput
    · cases h

theorem settle_events (s c : SocketPoll) (timeout r : Int) (t : Report) :
    (s.settle c timeout r t).1.events_ = t.events := by
  unfold settle
  dsimp only
  split
  · exact autoclear_events _ _
  split
  · exact autoclear_events _ _
  split
  · exact autoclear_events _ _
  · rfl

theorem consignReport_fds {host : SocketPoll} {timeout : Int} {done : Bool}
    (h : host.consignReport s timeout r = some (s', done)) : s'.fds = s.fds := by
  unfold consignReport at h
  split at h
  · cases h
  dsimp only at h
  split at h
  · cases h
    rfl
  · obtain ⟨t, ht, h⟩ := Option.map_eq_some_iff.mp h
    have hev := host.settle_events s timeout r t
    rw [h] at hev
    unfold fds
    rw [hev]
    exact reportLoop_fds ht

/-- **The entries of a poll that hosts no other keep different descriptors.** -/
theorem step_nodup {a : Call} (h : s.fds.Nodup) (hs : step s a = some s') : s'.fds.Nodup := by
  cases a with
  | addEvent fd read write user =>
    cases hs
    exact addEvent_nodup h fd read write user
  | readEvent fd active =>
    cases hs
    exact setEvent_nodup h (addEvent_nodup h _ _ _ _)
  | writeEvent fd active =>
    cases hs
    exact setEvent_nodup h (addEvent_nodup h _ _ _ _)
  | nullEvent fd =>
    cases hs
    unfold nullEvent
    split
    · exact addEvent_nodup h _ _ _ _
    · exact h
  | delEvent fd =>
    cases hs
    exact h.sublist ((List.eraseIdx_sublist _ _).map _)
  | clearEvent =>
    change s.clearEvent = some s' at hs
    unfold clearEvent at hs
    split at hs
    · cases hs
    · cases hs
      exact List.nodup_singleton _
  | poll o r =>
    rw [poll_fds hs]
    exact h
  | report host timeout r =>
    obtain ⟨⟨c, done⟩, hc, rfl⟩ := Option.map_eq_some_iff.mp hs
    rw [consignReport_fds hc]
    exact h
  | breaker a =>
    obtain ⟨b, -, rfl⟩ := Option.map_eq_some_iff.mp hs
    exact h

theorem run_nodup {b : SocketBreaker} {autoclear : Bool} (h : AnyRun step (new b autoclear) s) :
    s.fds.Nodup := by
  refine Run.keep (P := fun t => t.fds.Nodup) h ?_ (List.nodup_singleton _)
  intro t a t' ht _ ha
  exact step_nodup ht ha

end

/-! ## what a poll gives -/

/-- the events of entries with these `revents` -/
def fired (es : List PollFd) (rs : List (BitVec 16)) : List PollFd :=
  (List.zipWith PollFd.put es rs).filter fun e => e.revents != 0

section
variable {s s' : SocketPoll} {es : List PollFd} {rs ps : List (BitVec 16)} {r0 : BitVec 16}

theorem fired_cons (e : PollFd) (es : List PollFd) (r : BitVec 16) (rs : List (BitVec 16)) :
    fired (e :: es) (r :: rs) = if r = 0 then fired es rs else e.put r :: fired es rs := by
  unfold fired
  rw [List.zipWith_cons_cons, List.filter_cons]
  show (if (r != 0) = true then _ else _) = _
  by_cases h : r = 0
  · rw [if_pos h, if_neg (by rw [h]; decide)]
  · rw [if_neg h, if_pos (bne_iff_ne.mpr h)]

theorem fired_length (h : rs.length = es.length) : (fired es rs).length = rs.countP (· != 0) := by
  induction es generalizing rs with
  | nil =>
    rw [List.length_eq_zero_iff.mp h]
    rfl
  | cons e es ih =>
    cases rs with
    | nil => cases h
    | cons r rs =>
      rw [fired_cons]
      by_cases h0 : r = 0
      · rw [if_pos h0, ih (Nat.succ.inj h), List.countP_cons_of_neg (by rw [h0]; decide)]
      · rw [if_neg h0, List.length_cons, ih (Nat.succ.inj h),
          List.countP_cons_of_pos (p := fun x => x != 0) (bne_iff_ne.mpr h0)]

theorem fired_fd {e : PollFd} (h : e ∈ fired es rs) : e.fd ∈ es.map PollFd.fd := by
  induction es generalizing rs with
  | nil => cases h
  | cons x es ih =>
    cases rs with
    | nil => cases h
    | cons r rs =>
      rw [fired_cons] at h
      split at h
      · exact List.mem_cons_of_mem _ (ih h)
      · rcases List.mem_cons.mp h with rfl | h
        · exact List.mem_cons_self
        · exact List.mem_cons_of_mem _ (ih h)

theorem fired_shift_length (h : rs.length = es.length) :
    (fired es rs).length ≤ (fired es (r0 :: (rs ++ ps))).length + if r0 = 0 then 1 else 0 := by
  induction es generalizing rs r0 with
  | nil =>
    rw [List.length_eq_zero_iff.mp h]
    exact Nat.zero_le _
  | cons e es ih =>
    cases rs with
    | nil => cases h
    | cons r rs =>
      have : (fired es rs).length ≤
          (fired es (r :: (rs ++ ps))).length + if r = 0 then 1 else 0 := ih (Nat.succ.inj h)
      rw [fired_cons, List.cons_append, fired_cons]
      by_cases h0 : r0 = 0
      · by_cases hr : r = 0
        · simp only [h0, hr, if_true] at this ⊢
          exact this
        · simp only [h0, hr, if_true, if_false, List.length_cons] at this ⊢
          omega
      · by_cases hr : r = 0
        · simp only [h0, hr, if_true, if_false, List.length_cons] at this ⊢
          exact this
        · simp only [h0, hr, if_false, List.length_cons] at this ⊢
          omega

/-- **One entry behind, the walk gives the entries what a poll gives them only where all outcomes are
that of the breaker.** -/
theorem shifted_iff (hnd : (es.map PollFd.fd).Nodup) (hlen : rs.length = es.length) (h0 : r0 ≠ 0) :
    fired es (r0 :: (rs ++ ps)) = fired es rs ↔ ∀ r ∈ rs, r = r0 := by
  induction es generalizing rs r0 with
  | nil =>
    rw [List.length_eq_zero_iff.mp hlen]
    refine ⟨fun _ r hr => ?_, fun _ => rfl⟩
    cases hr
  | cons e es ih =>
    cases rs with
    | nil => cases hlen
    | cons r rs =>
      obtain ⟨hnew, hnd⟩ := List.nodup_cons.mp hnd
      rw [fired_cons, if_neg h0, List.cons_append, fired_cons]
      constructor
      · intro h
        by_cases hr : r = 0
        · -- then `e` is not among the events of the poll
          rw [if_pos hr] at h
          have hmem : e.put r0 ∈ fired es rs := by
            rw [← h]
            exact List.mem_cons_self
          exact absurd (fired_fd hmem) hnew
        · rw [if_neg hr] at h
          obtain ⟨hput, hrest⟩ := List.cons.inj h
          have hr0 : r0 = r := congrArg PollFd.revents hput
          subst hr0
          intro x hx
          rcases List.mem_cons.mp hx with rfl | hx
          · rfl
          · exact (ih hnd (Nat.succ.inj hlen) hr).mp hrest x hx
      · intro h
        have hr : r = r0 := h r List.mem_cons_self
        subst hr
        rw [if_neg h0, (ih hnd (Nat.succ.inj hlen) h0).mpr fun x hx => h x (List.mem_cons_of_mem _ hx)]

theorem fired_zeros (es : List PollFd) (n : Nat) : fired es (List.replicate n 0) = [] := by
  induction es generalizing n with
  | nil => rfl
  | cons e es ih =>
    cases n with
    | zero => rfl
    | succ n =>
      rw [List.replicate_succ, fired_cons, if_pos rfl]
      exact ih n

theorem zipWith_put_put (es : List PollFd) (rs : List (BitVec 16)) :
    List.zipWith PollFd.put (es.map (PollFd.put · 0)) rs = List.zipWith PollFd.put es rs := by
  rw [List.zipWith_map_left]
  rfl

theorem map_put_zero (es : List PollFd) :
    es.map (PollFd.put · 0) = List.zipWith PollFd.put es (List.replicate es.length 0) := by
  induction es with
  | nil => rfl
  | cons e es ih =>
    rw [List.map_cons, ih]
    rfl

theorem poll_eq {e0 : PollFd} {o : PollOutcome} {r : Int} (he : s.events_ = e0 :: es)
    (ho : o.revents s.events_.length = r0 :: rs) (hlen : rs.length = es.length) :
    ∃ s', s.poll o r = some s' ∧ s'.events_ = e0.put r0 :: List.zipWith PollFd.put es rs ∧
      s'.ret_ = o.ret ∧ s'.triggered_events_ = (fired es rs).map s.event := by
  have hne : s.events_.map (PollFd.put · 0) ≠ [] := by
    rw [he]
    exact List.cons_ne_nil _ _
  cases o with
  | error errno =>
    rw [he] at ho
    obtain ⟨rfl, hrs⟩ := List.cons.inj ho
    refine ⟨_, if_neg hne, ?_, ?_, ?_⟩
    · rw [autoclear_events, ← hrs]
      show s.events_.map (PollFd.put · 0) = _
      rw [map_put_zero, he]
      rfl
    · rw [autoclear_ret]
      rfl
    · rw [autoclear_triggered, ← hrs, fired_zeros]
      rfl
  | ready rs' =>
    change rs' = r0 :: rs at ho
    subst ho
    have hfit : (r0 :: rs).length = (s.events_.map (PollFd.put · 0)).length := by
      rw [List.length_map, he, List.length_cons, List.length_cons, hlen]
    have hev : List.zipWith PollFd.put (s.events_.map (PollFd.put · 0)) (r0 :: rs) =
        e0.put r0 :: List.zipWith PollFd.put es rs := by
      rw [zipWith_put_put, he, List.zipWith_cons_cons]
    have hpoll : s.poll (.ready (r0 :: rs)) r = some _ := (if_neg hne).trans (if_pos hfit)
    refine ⟨_, hpoll, ?_, ?_, ?_⟩
    · rw [autoclear_events]
      exact hev
    · rw [autoclear_ret]
      rfl
    · rw [autoclear_triggered]
      dsimp only
      rw [hev]
      split
      · -- nothing is ready, so there are no events either
        rename_i hzero
        have hcount : (r0 :: rs).countP (· != 0) = 0 := Int.ofNat.inj hzero
        have hle : (fired es rs).length ≤ 0 := by
          rw [fired_length hlen, ← hcount]
          exact (List.sublist_cons_self r0 rs).countP_le
        rw [List.length_eq_zero_iff.mp (Nat.le_zero.mp hle)]
        rfl
      · rfl

/-! ## the walk of `ConsignReport` -/

theorem reportLoop_eq {fd0 : Int} {fs is : List PollFd} (hlen : is.length ≤ fs.length)
    (hne : fd0 ∉ is.map PollFd.fd) :
    ∃ es, reportLoop fd0 fs is =
      some ⟨es, fired is (fs.map PollFd.revents), (fired is (fs.map PollFd.revents)).length⟩ := by
  induction is generalizing fs with
  | nil =>
    refine ⟨[], ?_⟩
    unfold reportLoop
    rfl
  | cons i is ih =>
    cases fs with
    | nil => cases hlen
    | cons f fs =>
      obtain ⟨hi, hne⟩ := not_or.mp (fun h => hne (List.mem_cons.mpr h))
      obtain ⟨es, hes⟩ := ih (Nat.le_of_succ_le_succ hlen) hne
      unfold reportLoop
      rw [List.map_cons, fired_cons, hes]
      by_cases h0 : f.revents = 0
      · rw [if_neg (not_not_intro h0), if_pos h0]
        exact ⟨_, rfl⟩
      · rw [if_pos h0, if_neg (Ne.symm hi), if_neg h0]
        exact ⟨_, rfl⟩

theorem fired_append (h : rs.length = es.length) : fired es (rs ++ ps) = fired es rs := by
  unfold fired
  rw [← List.append_nil es, List.zipWith_append h.symm, List.zipWith_nil_left, List.append_nil,
    List.append_nil]

theorem report_quiet {e0 : PollFd} {fs : List PollFd} (hfs : fs.map PollFd.revents = 0 :: (rs ++ ps))
    (hlen : rs.length = es.length) (hne : e0.fd ∉ es.map PollFd.fd) :
    ∃ l, reportLoop e0.fd fs (e0 :: es) =
      some ⟨e0 :: l, fired es rs, (fired es rs).length⟩ := by
  cases fs with
  | nil => cases hfs
  | cons f fs =>
    obtain ⟨hf, hfs'⟩ := List.cons.inj hfs
    have hle : es.length ≤ fs.length := by
      have := congrArg List.length hfs'
      rw [List.length_map, List.length_append] at this
      omega
    obtain ⟨l, hl⟩ := reportLoop_eq hle hne
    unfold reportLoop
    rw [if_neg (not_not_intro hf), hl, hfs', fired_append hlen]
    exact ⟨l, rfl⟩

/-- the walk where it is: the place in the host's entries stays behind by one -/
theorem report_ready {e0 : PollFd} {fs : List PollFd} (hfs : fs.map PollFd.revents = r0 :: (rs ++ ps))
    (hlen : rs.length = es.length) (hne : e0.fd ∉ es.map PollFd.fd) (h0 : r0 ≠ 0) :
    ∃ l, reportLoop e0.fd fs (e0 :: es) = some ⟨e0.put r0 :: l, fired es (r0 :: (rs ++ ps)),
      (fired es (r0 :: (rs ++ ps))).length + 1⟩ := by
  cases fs with
  | nil => cases hfs
  | cons f fs =>
    obtain ⟨hf, hfs'⟩ := List.cons.inj hfs
    have hle : es.length ≤ (f :: fs).length := by
      have := congrArg List.length hfs'
      rw [List.length_map, List.length_append] at this
      rw [List.length_cons]
      omega
    obtain ⟨l, hl⟩ := reportLoop_eq hle hne
    unfold reportLoop
    rw [if_pos (by rw [hf]; exact h0), if_pos rfl, hl, hfs, hf]
    exact ⟨l, rfl⟩

/-! ## consigned and own polls -/

/-- the other consignors of a host, one after the other -/
def consignAll : SocketPoll → List SocketPoll → Option SocketPoll
  | s, [] => some s
  | s, d :: ds => (s.consign d false).bind fun t => t.1.consignAll ds

theorem consign_events {d : SocketPoll} {ok : Bool} (h : s.consign d false = some (s', ok)) :
    ∃ ps, s'.events_ = s.events_ ++ ps := by
  obtain ⟨e0, -, h⟩ := Option.map_eq_some_iff.mp h
  rw [if_neg Bool.false_ne_true] at h
  split at h
  · cases h
    exact ⟨[], (List.append_nil _).symm⟩
  · cases h
    exact ⟨_, rfl⟩

theorem consignAll_events {ds : List SocketPoll} (h : s.consignAll ds = some s') :
    ∃ ps, s'.events_ = s.events_ ++ ps := by
  induction ds generalizing s with
  | nil =>
    cases h
    exact ⟨[], (List.append_nil _).symm⟩
  | cons d ds ih =>
    obtain ⟨⟨t, ok⟩, ht, h⟩ := Option.bind_eq_some_iff.mp h
    obtain ⟨ps, hps⟩ := consign_events ht
    obtain ⟨qs, hqs⟩ := ih h
    refine ⟨ps ++ qs, ?_⟩
    rw [hqs, hps, List.append_assoc]

theorem settle_triggered (s c : SocketPoll) (timeout r : Int) (t : Report) :
    (s.settle c timeout r t).1.triggered_events_ =
      c.triggered_events_ ++ t.triggered.map c.event := by
  unfold settle
  dsimp only
  split
  · exact autoclear_triggered _ _
  split
  · exact autoclear_triggered _ _
  split
  · exact autoclear_triggered _ _
  · rfl

theorem settle_ret (s c : SocketPoll) (timeout r : Int) (t : Report) :
    (s.settle c timeout r t).1.ret_ =
      if s.ret_ < 0 then s.ret_
      else if 0 < t.count then (t.count : Int) else if timeout ≤ 0 then 0 else c.ret_ := by
  unfold settle
  dsimp only
  split
  · exact autoclear_ret _ _
  split
  · exact autoclear_ret _ _
  split
  · exact autoclear_ret _ _
  · rfl

theorem poll_fits {o : PollOutcome} {r : Int} (h : s.poll o r = some s') :
    s.events_ ≠ [] ∧ (o.revents s.events_.length).length = s.events_.length := by
  unfold poll at h
  dsimp only at h
  split at h
  · cases h
  rename_i hne
  refine ⟨fun he => hne (by rw [he]; rfl), ?_⟩
  cases o with
  | error errno => exact List.length_replicate
  | ready rs =>
    dsimp only at h
    split at h
    · rename_i hlen
      rw [List.length_map] at hlen
      exact hlen
    · cases h

theorem zipWith_put_revents (h : rs.length = es.length) :
    (List.zipWith PollFd.put es rs).map PollFd.revents = rs := by
  induction es generalizing rs with
  | nil => rw [List.length_eq_zero_iff.mp h]; rfl
  | cons e es ih =>
    cases rs with
    | nil => cases h
    | cons r rs =>
      rw [List.zipWith_cons_cons, List.map_cons, ih (Nat.succ.inj h)]
      rfl

theorem poll_revents {o : PollOutcome} {r : Int} (h : s.poll o r = some s') :
    s'.events_.map PollFd.revents = o.revents s.events_.length ∧ s'.ret_ = o.ret := by
  obtain ⟨hne, hfit⟩ := poll_fits h
  obtain ⟨e0, es, he⟩ := List.exists_cons_of_ne_nil hne
  obtain ⟨r0, rs, ho⟩ : ∃ r0 rs, o.revents s.events_.length = r0 :: rs := by
    refine List.exists_cons_of_ne_nil (fun h0 => hne ?_)
    rw [h0] at hfit
    exact List.length_eq_zero_iff.mp hfit.symm
  have hlen : rs.length = es.length := by
    rw [ho, he] at hfit
    exact Nat.succ.inj hfit
  obtain ⟨t, ht, hev, hret, -⟩ := poll_eq (r := r) he ho hlen
  rw [ht] at h
  cases h
  refine ⟨?_, hret⟩
  rw [hev, List.map_cons, zipWith_put_revents hlen, ho]
  rfl

theorem part_revents {o : PollOutcome} {k n N : Nat} (h : k + n ≤ N) :
    (o.part k n).revents n = ((o.revents N).drop k).take n := by
  cases o with
  | error errno =>
    show List.replicate n 0 = ((List.replicate N 0).drop k).take n
    rw [List.drop_replicate, List.take_replicate, Nat.min_eq_left (by omega)]
  | ready rs => rfl

/-- the consignor is as after a poll of its own -/
structure Same (c own : SocketPoll) : Prop where
  ret : c.ret_ = own.ret_
  triggered : c.triggered_events_ = own.triggered_events_
  breaker : c.breakerIsBreak = own.breakerIsBreak

/-- when a consigned poll with this outcome agrees with one of the consignor's own: no events and no
readable breaker are left from before, and where the breaker is ready, all entries are so alike -/
def Agrees (c : SocketPoll) (_timeout : Int) : PollOutcome → Prop
  | .error _ => c.triggered_events_ = [] ∧ c.breakerIsBreak = false
  | .ready rs => c.triggered_events_ = [] ∧ (rs.head? = some 0 → c.breakerIsBreak = false) ∧
      (rs.head? ≠ some 0 → ∀ r ∈ rs, rs.head? = some r) ∧
      ((∀ r ∈ rs, r = 0) → 0 < _timeout → c.ret_ = 0)

/-- where a consignor stands in its host, and what the host's poll brings there -/
theorem hosted {c h h1 h2 h3 : SocketPoll} {others : List SocketPoll} {o : PollOutcome} {r : Int}
    {e0 : PollFd} (he : c.events_ = e0 :: es) (hcon : h.consign c false = some (h1, true))
    (hoth : h1.consignAll others = some h2) (hpoll : h2.poll o r = some h3) :
    ∃ r0 rs ps, (o.part h.events_.length (es.length + 1)).revents (es.length + 1) = r0 :: rs ∧
      rs.length = es.length ∧
      (h3.events_.drop h.events_.length).map PollFd.revents = r0 :: (rs ++ ps) ∧
      h3.find e0.fd = h.events_.length ∧ h.events_.length ≠ h3.events_.length := by
  obtain ⟨x, hx, hcon⟩ := Option.map_eq_some_iff.mp hcon
  rw [he] at hx
  cases hx
  rw [if_neg Bool.false_ne_true] at hcon
  split at hcon
  · cases hcon
  rename_i hend
  cases hcon
  obtain ⟨post, hpost⟩ := consignAll_events hoth
  change h2.events_ = (h.events_ ++ c.events_) ++ post at hpost
  rw [he] at hpost
  have hN : h2.events_.length = h.events_.length + (es.length + 1 + post.length) := by
    rw [hpost, List.length_append, List.length_append, List.length_cons]
    omega
  obtain ⟨-, hfit⟩ := poll_fits hpoll
  obtain ⟨hrev, -⟩ := poll_revents hpoll
  have hfds := poll_fds hpoll
  have hlen3 : h3.events_.length = h2.events_.length := by
    have := congrArg List.length hfds
    unfold fds at this
    rwa [List.length_map, List.length_map] at this
  obtain ⟨r0, tl, htl⟩ : ∃ r0 tl, (o.revents h2.events_.length).drop h.events_.length = r0 :: tl := by
    refine List.exists_cons_of_ne_nil (fun h0 => ?_)
    have := List.drop_eq_nil_iff.mp h0
    omega
  have htlen : tl.length = es.length + post.length := by
    have := congrArg List.length htl
    rw [List.length_drop, List.length_cons] at this
    omega
  refine ⟨r0, tl.take es.length, tl.drop es.length, ?_, ?_, ?_, ?_, ?_⟩
  · rw [part_revents (N := h2.events_.length) (by omega), htl, List.take_succ_cons]
  · rw [List.length_take, htlen]
    omega
  · rw [List.take_append_drop, List.map_drop, hrev, htl]
  · have hin : h3.fds = h.fds ++ e0.fd :: (es ++ post).map PollFd.fd := by
      rw [hfds]
      unfold fds
      rw [hpost, List.append_assoc, List.map_append]
      rfl
    have hnot : ¬ h.fds.findIdx (· == e0.fd) < h.fds.length := by
      rw [← find_fds, not_not.mp hend]
      unfold fds
      rw [List.length_map]
      exact Nat.lt_irrefl _
    rw [find_fds, hin, List.findIdx_append, if_neg hnot, List.findIdx_cons, beq_self_eq_true]
    unfold fds
    rw [List.length_map]
    exact Nat.zero_add _
  · omega

theorem consignReport_eq {c h : SocketPoll} {e0 : PollFd} {k : Nat} {timeout r : Int} {t : Report}
    (he : c.events_ = e0 :: es) (hfind : h.find e0.fd = k) (hk : k ≠ h.events_.length)
    (hloop : reportLoop e0.fd (h.events_.drop k) c.events_ = some t) :
    h.consignReport c timeout r = some (h.settle c timeout r t) := by
  unfold consignReport
  rw [he] at hloop ⊢
  simp only [List.head?_cons, hfind, if_neg hk, hloop, Option.map_some]

theorem append_eq_of_length {α : Type} {t xs ys : List α} (hle : ys.length ≤ xs.length) :
    t ++ xs = ys ↔ t = [] ∧ xs = ys := by
  constructor
  · intro h
    have ht : t = [] := by
      have := congrArg List.length h
      rw [List.length_append] at this
      exact List.length_eq_zero_iff.mp (by omega)
    subst ht
    exact ⟨rfl, h⟩
  · rintro ⟨rfl, rfl⟩
    rfl

theorem event_inj (s : SocketPoll) : Function.Injective s.event :=
  fun _ _ h => congrArg PollEvent.poll_event_ h

theorem breakerIsBreak_eq {e0 : PollFd} (he : s.events_ = e0 :: es) :
    s.breakerIsBreak = (e0.revents &&& POLLIN != 0) := by
  unfold breakerIsBreak
  rw [he]
  rfl

theorem settle_break {c h : SocketPoll} {e : PollFd} {l : List PollFd} {timeout r : Int}
    {t : Report} (ht : t.events = e :: l) :
    (h.settle c timeout r t).1.breakerIsBreak = (e.revents &&& POLLIN != 0) :=
  breakerIsBreak_eq ((settle_events h c timeout r t).trans ht)

theorem zero_not_readable : ((0 : BitVec 16) &&& POLLIN != 0) = false := by decide

section
variable {c own h : SocketPoll} {e0 : PollFd} {l : List PollFd} {timeout r : Int}

theorem same_error (he : c.events_ = e0 :: es) (hret : h.ret_ = -1) (howr : own.ret_ = -1)
    (howt : own.triggered_events_ = []) (howb : own.breakerIsBreak = false) :
    Same (h.settle c timeout r ⟨e0 :: l, [], 0⟩).1 own ↔
      c.triggered_events_ = [] ∧ c.breakerIsBreak = false := by
  rw [breakerIsBreak_eq he]
  constructor
  · intro hs
    have ht := hs.triggered
    have hb := hs.breaker
    rw [settle_triggered, howt] at ht
    rw [settle_break rfl, howb] at hb
    exact ⟨(List.append_eq_nil_iff.mp ht).1, hb⟩
  · rintro ⟨ht, hb⟩
    refine ⟨?_, ?_, ?_⟩
    · rw [settle_ret, if_pos (by rw [hret]; decide), hret, howr]
    · rw [settle_triggered, ht, howt]
      rfl
    · rw [settle_break rfl, hb, howb]

theorem same_quiet (he : c.events_ = e0 :: es) (hlen : rs.length = es.length) (hret : ¬ h.ret_ < 0)
    (howr : own.ret_ = (rs.countP (· != 0) : Nat))
    (howt : own.triggered_events_ = (fired es rs).map c.event) (howb : own.breakerIsBreak = false) :
    Same (h.settle c timeout r ⟨e0 :: l, fired es rs, (fired es rs).length⟩).1 own ↔
      c.triggered_events_ = [] ∧ c.breakerIsBreak = false ∧
        ((∀ x ∈ rs, x = 0) → 0 < timeout → c.ret_ = 0) := by
  have hnone : (∀ x ∈ rs, x = 0) ↔ ¬ 0 < (fired es rs).length := by
    rw [fired_length hlen, List.countP_pos_iff]
    push Not
    exact forall₂_congr (fun x _ => by simp)
  rw [breakerIsBreak_eq he, hnone]
  constructor
  · intro hs
    have ht := hs.triggered
    have hb := hs.breaker
    have hr := hs.ret
    rw [settle_triggered, howt] at ht
    rw [settle_break rfl, howb] at hb
    rw [settle_ret, howr, ← fired_length hlen, if_neg hret] at hr
    refine ⟨((append_eq_of_length (Nat.le_refl _)).mp ht).1, hb, fun h0 htime => ?_⟩
    dsimp only at hr
    rw [if_neg h0, if_neg (by omega)] at hr
    omega
  · rintro ⟨ht, hb, hr⟩
    refine ⟨?_, ?_, ?_⟩
    · rw [settle_ret, howr, ← fired_length hlen, if_neg hret]
      dsimp only
      split
      · rfl
      · rename_i h0
        split
        · omega
        · rename_i htime
          rw [hr h0 (by omega)]
          omega
    · rw [settle_triggered, ht, howt]
      rfl
    · rw [settle_break rfl, hb, howb]

theorem same_ready (hnd : (es.map PollFd.fd).Nodup) (hlen : rs.length = es.length) (h0 : r0 ≠ 0)
    (hret : ¬ h.ret_ < 0) (howr : own.ret_ = ((r0 :: rs).countP (· != 0) : Nat))
    (howt : own.triggered_events_ = (fired es rs).map c.event)
    (howb : own.breakerIsBreak = (r0 &&& POLLIN != 0)) :
    Same (h.settle c timeout r ⟨e0.put r0 :: l, fired es (r0 :: (rs ++ ps)),
      (fired es (r0 :: (rs ++ ps))).length + 1⟩).1 own ↔
      c.triggered_events_ = [] ∧ ∀ x ∈ rs, x = r0 := by
  have hle : (fired es rs).length ≤
      (fired es (r0 :: (rs ++ ps))).length + if r0 = 0 then 1 else 0 := fired_shift_length hlen
  rw [if_neg h0, Nat.add_zero] at hle
  have hevents : c.triggered_events_ ++ (fired es (r0 :: (rs ++ ps))).map c.event =
      (fired es rs).map c.event ↔ c.triggered_events_ = [] ∧ ∀ x ∈ rs, x = r0 := by
    rw [append_eq_of_length (by rw [List.length_map, List.length_map]; exact hle),
      (List.map_injective_iff.mpr c.event_inj).eq_iff, shifted_iff hnd hlen h0]
  rw [← hevents]
  constructor
  · intro hs
    have ht := hs.triggered
    rw [settle_triggered, howt] at ht
    exact ht
  · intro ht
    refine ⟨?_, ?_, ?_⟩
    · have hall := (hevents.mp ht).2
      rw [settle_ret, if_neg hret, if_pos (Nat.succ_pos _), howr,
        (shifted_iff hnd hlen h0).mpr hall, fired_length hlen,
        List.countP_cons_of_pos (p := fun x => x != 0) (bne_iff_ne.mpr h0)]
    · rw [settle_triggered, howt]
      exact ht
    · rw [settle_break rfl, howb]
      rfl

end

theorem agrees_quiet (c : SocketPoll) (timeout : Int) (rs : List (BitVec 16)) :
    Agrees c timeout (.ready (0 :: rs)) ↔ c.triggered_events_ = [] ∧ c.breakerIsBreak = false ∧
      ((∀ x ∈ rs, x = 0) → 0 < timeout → c.ret_ = 0) := by
  constructor
  · rintro ⟨ht, hb, -, hr⟩
    refine ⟨ht, hb rfl, fun h0 => hr fun x hx => ?_⟩
    rcases List.mem_cons.mp hx with rfl | hx
    · rfl
    · exact h0 x hx
  · rintro ⟨ht, hb, hr⟩
    refine ⟨ht, fun _ => hb, fun h0 => absurd rfl h0, fun h0 => hr fun x hx => ?_⟩
    exact h0 x (List.mem_cons_of_mem _ hx)

theorem agrees_ready (c : SocketPoll) (timeout : Int) (rs : List (BitVec 16)) (h0 : r0 ≠ 0) :
    Agrees c timeout (.ready (r0 :: rs)) ↔ c.triggered_events_ = [] ∧ ∀ x ∈ rs, x = r0 := by
  have hne : (r0 :: rs).head? ≠ some 0 := fun h => h0 (Option.some.inj h)
  constructor
  · rintro ⟨ht, -, hall, -⟩
    refine ⟨ht, fun x hx => ?_⟩
    exact (Option.some.inj (hall hne x (List.mem_cons_of_mem _ hx))).symm
  · rintro ⟨ht, hall⟩
    refine ⟨ht, fun h => absurd h hne, fun _ x hx => ?_, fun h => ?_⟩
    · rcases List.mem_cons.mp hx with rfl | hx
      · rfl
      · exact congrArg some (hall x hx).symm
    · exact absurd (h r0 List.mem_cons_self) h0

/-- **A consigned poll gives the consignor what its own would have given exactly where nothing is
left from before and a ready breaker is not alone or first among different outcomes.** -/
theorem consigned_iff {c h h1 h2 h3 : SocketPoll} {b : SocketBreaker} {autoclear : Bool}
    {others : List SocketPoll} {o : PollOutcome} {timeout r r' r'' : Int}
    (hc : AnyRun step (new b autoclear) c)
    (hcon : h.consign c false = some (h1, true)) (hoth : h1.consignAll others = some h2)
    (hpoll : h2.poll o r = some h3) :
    ∃ c' done own, h3.consignReport c timeout r' = some (c', done) ∧
      c.poll (o.part h.events_.length c.events_.length) r'' = some own ∧
      (Same c' own ↔ Agrees c timeout (o.part h.events_.length c.events_.length)) := by
  obtain ⟨e0, es, he⟩ : ∃ e0 es, c.events_ = e0 :: es := by
    obtain ⟨e0, he0, -⟩ := Option.map_eq_some_iff.mp hcon
    exact ⟨e0, _, List.eq_cons_of_mem_head? he0⟩
  obtain ⟨r0, rs, ps, hpart, hlen, hrev, hfind, hk⟩ := hosted he hcon hoth hpoll
  have hnodup := run_nodup hc
  unfold fds at hnodup
  rw [he] at hnodup
  obtain ⟨hnew, hnd⟩ := List.nodup_cons.mp hnodup
  have hn : c.events_.length = es.length + 1 := by
    rw [he]
    rfl
  have hret := (poll_revents hpoll).2
  rw [← hn] at hpart
  obtain ⟨own, hown, hev, howr, howt⟩ := poll_eq (r := r'') he hpart hlen
  have howb := breakerIsBreak_eq hev
  have hloop : ∃ t, reportLoop e0.fd (h3.events_.drop h.events_.length) c.events_ = some t ∧
      (Same (h3.settle c timeout r' t).1 own ↔
        Agrees c timeout (o.part h.events_.length c.events_.length)) := by
    cases o with
    | error errno =>
      rw [hn] at hpart
      obtain ⟨hr0, hrs⟩ := List.cons.inj hpart
      subst hr0
      obtain ⟨l, hl⟩ := report_quiet hrev hlen hnew
      rw [← he, ← hrs, fired_zeros] at hl
      rw [← hrs, fired_zeros] at howt
      exact ⟨_, hl, same_error he hret howr howt (howb.trans zero_not_readable)⟩
    | ready rs' =>
      have hpos : ¬ h3.ret_ < 0 := by
        rw [hret]
        exact Int.not_lt.mpr (Int.natCast_nonneg _)
      have hready : PollOutcome.part h.events_.length c.events_.length (.ready rs') =
          .ready (r0 :: rs) := congrArg PollOutcome.ready hpart
      rw [hready] at howr ⊢
      by_cases h0 : r0 = 0
      · subst h0
        obtain ⟨l, hl⟩ := report_quiet hrev hlen hnew
        rw [← he] at hl
        refine ⟨_, hl, (same_quiet he hlen hpos ?_ howt (howb.trans zero_not_readable)).trans ?_⟩
        · exact howr.trans (congrArg _ (List.countP_cons_of_neg (by decide)))
        · exact (agrees_quiet c timeout rs).symm
      · obtain ⟨l, hl⟩ := report_ready hrev hlen hnew h0
        rw [← he] at hl
        refine ⟨_, hl, (same_ready hnd hlen h0 hpos howr howt howb).trans ?_⟩
        exact (agrees_ready c timeout rs h0).symm
  obtain ⟨t, ht, hsame⟩ := hloop
  exact ⟨_, _, own, consignReport_eq he hfind hk ht, hown, hsame⟩

end

def waiter : SocketPoll := (new { pipes_ := (3, 4), unread := some 0 } false).addEvent 5 true false none

def host : SocketPoll := new { pipes_ := (9, 10), unread := some 0 } true

theorem waiter_run : AnyRun step (new { pipes_ := (3, 4), unread := some 0 } false) waiter :=
  Run.one (a := .addEvent 5 true false none) trivial rfl

/-- the socket becomes readable -/
theorem consigned_iff_waiter : ∃ h1 h3 c' done own, host.consign waiter false = some (h1, true) ∧
    h1.poll (.ready [0, 0, POLLIN]) (-1) = some h3 ∧
    h3.consignReport waiter 1 (-1) = some (c', done) ∧
    waiter.poll (.ready [0, POLLIN]) (-1) = some own ∧ Same c' own := by
  obtain ⟨h1, h3, hcon, hpoll⟩ : ∃ h1 h3, host.consign waiter false = some (h1, true) ∧
      h1.poll (.ready [0, 0, POLLIN]) (-1) = some h3 := ⟨_, _, rfl, rfl⟩
  obtain ⟨c', done, own, hrep, hown, hsame⟩ : ∃ c' done own,
      h3.consignReport waiter 1 (-1) = some (c', done) ∧
      waiter.poll ((PollOutcome.ready [0, 0, POLLIN]).part 1 2) (-1) = some own ∧
      (Same c' own ↔ Agrees waiter 1 ((PollOutcome.ready [0, 0, POLLIN]).part 1 2)) :=
    consigned_iff waiter_run hcon (show h1.consignAll [] = some h1 from rfl) hpoll
  refine ⟨h1, h3, c', done, own, hcon, hpoll, hrep, hown, hsame.mpr ?_⟩
  refine (agrees_quiet _ _ _).mpr ⟨rfl, rfl, fun h0 => ?_⟩
  exact absurd (h0 POLLIN List.mem_cons_self) (by decide)

/-- the breaker becomes readable and the socket does not -/
theorem consigned_differs : ¬ ∀ (c h h1 h2 h3 c' own : SocketPoll) (b : SocketBreaker)
    (autoclear done : Bool) (others : List SocketPoll) (o : PollOutcome) (timeout r r' r'' : Int),
    AnyRun step (new b autoclear) c → h.consign c false = some (h1, true) →
    h1.consignAll others = some h2 → h2.poll o r = some h3 →
    h3.consignReport c timeout r' = some (c', done) →
    c.poll (o.part h.events_.length c.events_.length) r'' = some own → Same c' own := by
  intro h
  obtain ⟨h1, h3, c', own, hcon, hpoll, hrep, hown, ht, ho⟩ : ∃ h1 h3 c' own,
      host.consign waiter false = some (h1, true) ∧
      h1.poll (.ready [0, POLLIN, 0]) (-1) = some h3 ∧
      h3.consignReport waiter 1 (-1) = some (c', true) ∧
      waiter.poll (.ready [POLLIN, 0]) (-1) = some own ∧
      c'.triggered_events_.length = 1 ∧ own.triggered_events_.length = 0 :=
    ⟨_, _, _, _, rfl, rfl, rfl, rfl, rfl, rfl⟩
  have hs := h waiter host h1 h1 h3 c' own _ _ true [] _ 1 (-1) (-1) (-1) waiter_run hcon rfl hpoll
    hrep hown
  rw [hs.triggered, ho] at ht
  cases ht

end SocketPoll
