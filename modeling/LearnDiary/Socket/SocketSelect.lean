import LearnDiary.Socket.SocketPoll

/-!
# `SocketSelect` (comm/unix/socket/socketselect.cc)

The interface of `select` over a `SocketPoll`: descriptors are put into sets and looked up in them
afterwards.

* `Entries`        the entries are the descriptors asked for, each once, with the bits of all calls;
* `sets_entries`   so after any calls of the `_FD_SET` functions;
* `select_answers` `_FD_ISSET` gives what the system says of that descriptor, and nothing of the
  breaker's.
-/

namespace PollEvent

def writealbe (e : PollEvent) : Bool := e.poll_event_.revents &&& POLLOUT != 0
def hangUp (e : PollEvent) : Bool := e.poll_event_.revents &&& POLLHUP != 0
def error (e : PollEvent) : Bool := e.poll_event_.revents &&& POLLERR != 0
def invalid (e : PollEvent) : Bool := e.poll_event_.revents &&& POLLNVAL != 0

end PollEvent

def SocketPoll.breakerIsError (s : SocketPoll) : Bool :=
  s.events_.head?.any fun e => (PollEvent.mk e none).invalid || (PollEvent.mk e none).error

/-- the sets after `Select` -/
structure Selection where
  read : Int → Bool
  write : Int → Bool
  exception : Int → Bool

structure SocketSelect where
  socket_poll_ : SocketPoll

namespace SocketSelect

/-- a call of a `_FD_SET` function -/
inductive SetCall where
  | read (_socket : Int)
  | write (_socket : Int)
  | exception (_socket : Int)
deriving DecidableEq

def new (_breaker : SocketBreaker) (_autoclear : Bool) : SocketSelect :=
  ⟨.new _breaker _autoclear⟩

def preSelect (s : SocketSelect) : Option SocketSelect := s.socket_poll_.clearEvent.map .mk

/-- `o` is how the system's `poll` ends, `r` what the breaker's `read` gives -/
def select (s : SocketSelect) (o : PollOutcome) (r : Int) : Option SocketSelect :=
  (s.socket_poll_.poll o r).map .mk

def read_FD_SET (s : SocketSelect) (_socket : Int) : SocketSelect :=
  ⟨s.socket_poll_.readEvent _socket true⟩

def write_FD_SET (s : SocketSelect) (_socket : Int) : SocketSelect :=
  ⟨s.socket_poll_.writeEvent _socket true⟩

def exception_FD_SET (s : SocketSelect) (_socket : Int) : SocketSelect :=
  ⟨s.socket_poll_.nullEvent _socket⟩

def set (s : SocketSelect) : SetCall → SocketSelect
  | .read _socket => s.read_FD_SET _socket
  | .write _socket => s.write_FD_SET _socket
  | .exception _socket => s.exception_FD_SET _socket

/-- the first event of a descriptor, if there is one, passes the test -/
def isSet (s : SocketSelect) (test : PollEvent → Bool) (_socket : Int) : Bool :=
  (s.socket_poll_.triggered_events_.find? fun v => v.poll_event_.fd == _socket).any test

def read_FD_ISSET (s : SocketSelect) (_socket : Int) : Bool :=
  s.isSet (fun e => e.readable || e.hangUp) _socket

def write_FD_ISSET (s : SocketSelect) (_socket : Int) : Bool := s.isSet (·.writealbe) _socket

def exception_FD_ISSET (s : SocketSelect) (_socket : Int) : Bool :=
  s.isSet (fun e => e.error || e.invalid) _socket

def selection (s : SocketSelect) : Selection :=
  ⟨s.read_FD_ISSET, s.write_FD_ISSET, s.exception_FD_ISSET⟩

def ret (s : SocketSelect) : Int := s.socket_poll_.ret_
def isException (s : SocketSelect) : Bool := s.socket_poll_.breakerIsError
def isBreak (s : SocketSelect) : Bool := s.socket_poll_.breakerIsBreak

/-! ## what was asked -/

namespace SetCall

def socket : SetCall → Int
  | .read _socket => _socket
  | .write _socket => _socket
  | .exception _socket => _socket

def bits : SetCall → BitVec 16
  | .read _ => POLLIN
  | .write _ => POLLOUT
  | .exception _ => 0

end SetCall

/-- the bits the calls set for a descriptor -/
def mask (cs : List SetCall) (fd : Int) : BitVec 16 :=
  (cs.filter fun c => c.socket == fd).foldl (fun m c => m ||| c.bits) 0

/-- the entries of a poll whose breaker's descriptor is `b` after the calls `cs` -/
structure Entries (b : Int) (cs : List SetCall) (es : List PollFd) : Prop where
  head : (es.map PollFd.fd).head? = some b
  nodup : (es.map PollFd.fd).Nodup
  asked : ∀ fd, fd ≠ b → (fd ∈ es.map PollFd.fd ↔ fd ∈ cs.map SetCall.socket)
  events : ∀ e ∈ es, e.fd ≠ b → e.events = mask cs e.fd

section
variable {b fd : Int} {cs : List SetCall} {c : SetCall} {es : List PollFd} {s : SocketSelect}

theorem mask_append (cs : List SetCall) (c : SetCall) (fd : Int) :
    mask (cs ++ [c]) fd = if c.socket = fd then mask cs fd ||| c.bits else mask cs fd := by
  unfold mask
  rw [List.filter_append, List.foldl_append]
  by_cases h : c.socket = fd
  · rw [if_pos h, List.filter_cons_of_pos (p := fun c : SetCall => c.socket == fd) (beq_iff_eq.mpr h)]
    rfl
  · rw [if_neg h, List.filter_cons_of_neg (p := fun c : SetCall => c.socket == fd)
      (fun hb => h (beq_iff_eq.mp hb))]
    rfl

theorem mask_none (h : fd ∉ cs.map SetCall.socket) : mask cs fd = 0 := by
  have hf : cs.filter (fun c => c.socket == fd) = [] := by
    refine List.filter_eq_nil_iff.mpr fun c hc hb => h ?_
    exact beq_iff_eq.mp hb ▸ List.mem_map_of_mem hc
  rw [mask, hf]
  rfl

theorem modify_eq_map {f : PollFd → PollFd} (hnd : (es.map PollFd.fd).Nodup) :
    es.modify (es.findIdx fun v => v.fd == fd) f =
      es.map fun e => if e.fd = fd then f e else e := by
  induction es with
  | nil => rfl
  | cons e es ih =>
    obtain ⟨hne, hnd⟩ := List.nodup_cons.mp hnd
    by_cases h : e.fd = fd
    · have hrest : (es.map fun e => if e.fd = fd then f e else e) = es := by
        refine (List.map_congr_left fun x hx => if_neg fun hfd => hne ?_).trans (List.map_id _)
        exact (h.trans hfd.symm) ▸ List.mem_map_of_mem hx
      rw [List.findIdx_cons, beq_iff_eq.mpr h, List.map_cons, if_pos h, hrest]
      rfl
    · rw [List.findIdx_cons, beq_eq_false_iff_ne.mpr h, List.map_cons, if_neg h, ← ih hnd]
      rfl

/-- the entries after bits are set for a descriptor, which is new if it is not among them -/
def putBits (es : List PollFd) (fd : Int) (bits : BitVec 16) : List PollFd :=
  if fd ∈ es.map PollFd.fd then
    es.map fun e => if e.fd = fd then { e with events := e.events ||| bits } else e
  else es ++ [⟨fd, bits, 0⟩]

theorem setEvent_put {p : SocketPoll} (hnd : p.fds.Nodup) {bit : BitVec 16} {read write : Bool}
    (hbit : (if read then POLLIN else 0) ||| (if write then POLLOUT else 0) = bit) :
    (p.setEvent bit fd true (p.addEvent fd read write none)).events_ = putBits p.events_ fd bit := by
  unfold SocketPoll.setEvent
  by_cases h : p.find fd = p.events_.length
  · have hmem : fd ∉ p.events_.map PollFd.fd := SocketPoll.find_end h
    rw [if_pos h, putBits, if_neg hmem, SocketPoll.addEvent, hbit]
    exact if_pos h
  · obtain ⟨e, he, hfd⟩ := SocketPoll.find_at h
    have hmem : fd ∈ p.events_.map PollFd.fd := hfd ▸ List.mem_map_of_mem (List.mem_of_getElem? he)
    rw [if_neg h, putBits, if_pos hmem]
    exact modify_eq_map hnd

theorem set_put (hnd : s.socket_poll_.fds.Nodup) (c : SetCall) :
    (s.set c).socket_poll_.events_ = putBits s.socket_poll_.events_ c.socket c.bits := by
  cases c with
  | read fd => exact setEvent_put hnd (by decide)
  | write fd => exact setEvent_put hnd (by decide)
  | exception fd =>
    show (s.socket_poll_.nullEvent fd).events_ = putBits _ fd 0
    unfold SocketPoll.nullEvent
    by_cases h : s.socket_poll_.find fd = s.socket_poll_.events_.length
    · have hmem : fd ∉ s.socket_poll_.events_.map PollFd.fd := SocketPoll.find_end h
      rw [if_pos h, putBits, if_neg hmem, SocketPoll.addEvent]
      exact if_pos h
    · obtain ⟨e, he, hfd⟩ := SocketPoll.find_at h
      have hmem : fd ∈ s.socket_poll_.events_.map PollFd.fd :=
        hfd ▸ List.mem_map_of_mem (List.mem_of_getElem? he)
      have hid : (fun e : PollFd =>
          if e.fd = fd then { e with events := e.events ||| 0 } else e) = id := by
        funext e
        have hor : e.events ||| 0 = e.events := BitVec.or_zero
        rw [hor, ite_self]
        rfl
      rw [if_neg h, putBits, if_pos hmem, hid, List.map_id]

theorem putBits_fds (es : List PollFd) (fd : Int) (bits : BitVec 16) :
    (putBits es fd bits).map PollFd.fd =
      if fd ∈ es.map PollFd.fd then es.map PollFd.fd else es.map PollFd.fd ++ [fd] := by
  unfold putBits
  split
  · rw [List.map_map]
    refine List.map_congr_left fun e _ => ?_
    show (if e.fd = fd then { e with events := e.events ||| bits } else e).fd = e.fd
    split <;> rfl
  · rw [List.map_append]
    rfl

theorem putBits_entries (h : Entries b cs es) (c : SetCall) :
    Entries b (cs ++ [c]) (putBits es c.socket c.bits) := by
  have hfds := putBits_fds es c.socket c.bits
  have hcs : (cs ++ [c]).map SetCall.socket = cs.map SetCall.socket ++ [c.socket] := List.map_append
  by_cases hmem : c.socket ∈ es.map PollFd.fd
  · rw [if_pos hmem] at hfds
    refine ⟨by rw [hfds]; exact h.head, by rw [hfds]; exact h.nodup, fun fd hfd => ?_, ?_⟩
    · rw [hfds, hcs, List.mem_append, List.mem_singleton, h.asked fd hfd]
      refine ⟨Or.inl, ?_⟩
      rintro (hin | rfl)
      · exact hin
      · exact (h.asked _ hfd).mp hmem
    · intro e he hb
      rw [putBits, if_pos hmem] at he
      obtain ⟨x, hx, rfl⟩ := List.mem_map.mp he
      rw [mask_append]
      by_cases hxc : x.fd = c.socket
      · rw [if_pos hxc] at hb ⊢
        rw [if_pos hxc.symm, ← h.events x hx hb]
      · rw [if_neg hxc] at hb ⊢
        rw [if_neg (Ne.symm hxc)]
        exact h.events x hx hb
  · rw [if_neg hmem] at hfds
    refine ⟨?_, ?_, fun fd hfd => ?_, ?_⟩
    · rw [hfds, List.head?_append, h.head]
      rfl
    · rw [hfds]
      exact List.nodup_append_comm.mpr (List.nodup_cons.mpr ⟨hmem, h.nodup⟩)
    · rw [hfds, hcs, List.mem_append, List.mem_append, h.asked fd hfd]
    · intro e he hb
      rw [putBits, if_neg hmem] at he
      rw [mask_append]
      rcases List.mem_append.mp he with he | he
      · have hne : ¬ c.socket = e.fd := fun hc => by
          rw [hc] at hmem
          exact hmem (List.mem_map_of_mem he)
        rw [if_neg hne]
        exact h.events e he hb
      · rw [List.mem_singleton.mp he] at hb ⊢
        rw [if_pos rfl, mask_none (fun hc => hmem ((h.asked _ hb).mpr hc))]
        exact BitVec.zero_or.symm

def sets (s : SocketSelect) (cs : List SetCall) : SocketSelect := cs.foldl set s

/-- **Any calls of the `_FD_SET` functions after `PreSelect`.** -/
theorem sets_entries (h : Entries b cs s.socket_poll_.events_) (cs' : List SetCall) :
    Entries b (cs ++ cs') (s.sets cs').socket_poll_.events_ := by
  induction cs' generalizing s cs with
  | nil =>
    rw [List.append_nil]
    exact h
  | cons c cs' ih =>
    have hc : Entries b (cs ++ [c]) (s.set c).socket_poll_.events_ := by
      rw [set_put h.nodup]
      exact putBits_entries h c
    have := ih hc
    rw [List.append_assoc] at this
    exact this

theorem preSelect_entries {s' : SocketSelect} (h : s.preSelect = some s') :
    ∃ b, (s.socket_poll_.events_.map PollFd.fd).head? = some b ∧
      Entries b [] s'.socket_poll_.events_ := by
  obtain ⟨p, hp, rfl⟩ := Option.map_eq_some_iff.mp h
  unfold SocketPoll.clearEvent at hp
  split at hp
  · cases hp
  · rename_i e es he
    cases hp
    rw [he]
    refine ⟨e.fd, rfl, ⟨rfl, List.nodup_singleton _, fun fd hfd => ⟨fun hm => ?_, fun hm => ?_⟩, ?_⟩⟩
    · exact absurd (List.mem_singleton.mp hm) hfd
    · cases hm
    · intro x hx hb
      rw [List.mem_singleton.mp hx] at hb
      exact absurd rfl hb

end

/-! ## what is answered -/

/-- what the system makes of a poll: an error, or the `revents` for a descriptor and its events -/
abbrev Reply := Except Int (Int → BitVec 16 → BitVec 16)

/-- the outcome of `poll` for these entries -/
def Reply.outcome (R : Reply) (es : List PollFd) : PollOutcome :=
  match R with
  | .error errno => .error errno
  | .ok K => .ready (es.map fun e => K e.fd e.events)

/-- whether a descriptor passes the test in a poll for the calls `cs` -/
def Reply.answers (R : Reply) (cs : List SetCall) (test : BitVec 16 → Bool) (fd : Int) : Bool :=
  match R with
  | .error _ => false
  | .ok K => decide (fd ∈ cs.map SetCall.socket) && test (K fd (mask cs fd))

def readable (revents : BitVec 16) : Bool := revents &&& POLLIN != 0 || revents &&& POLLHUP != 0
def writable (revents : BitVec 16) : Bool := revents &&& POLLOUT != 0
def broken (revents : BitVec 16) : Bool := revents &&& POLLERR != 0 || revents &&& POLLNVAL != 0

section
variable {b fd : Int} {cs : List SetCall} {es : List PollFd} {s s' : SocketSelect} {R : Reply}
  {r : Int}

theorem fired_find (g : PollFd → BitVec 16) (hnd : (es.map PollFd.fd).Nodup) (fd : Int) :
    (SocketPoll.fired es (es.map g)).find? (fun v => v.fd == fd) =
      (es.find? fun v => v.fd == fd).bind fun e => if g e = 0 then none else some (e.put (g e)) := by
  induction es with
  | nil => rfl
  | cons e es ih =>
    obtain ⟨hne, hnd⟩ := List.nodup_cons.mp hnd
    rw [List.map_cons, SocketPoll.fired_cons]
    by_cases h : e.fd = fd
    · rw [List.find?_cons_of_pos (p := fun v : PollFd => v.fd == fd) (beq_iff_eq.mpr h)]
      show _ = if g e = 0 then none else some (e.put (g e))
      by_cases h0 : g e = 0
      · have hrest : es.find? (fun v => v.fd == fd) = none := by
          refine List.find?_eq_none.mpr fun x hx hb => hne ?_
          exact (h.trans (beq_iff_eq.mp hb).symm) ▸ List.mem_map_of_mem hx
        rw [if_pos h0, if_pos h0, ih hnd, hrest]
        rfl
      · rw [if_neg h0, if_neg h0]
        exact List.find?_cons_of_pos (p := fun v : PollFd => v.fd == fd) (beq_iff_eq.mpr h)
    · rw [List.find?_cons_of_neg (p := fun v : PollFd => v.fd == fd) (fun hb => h (beq_iff_eq.mp hb)),
        ← ih hnd]
      split
      · rfl
      · exact List.find?_cons_of_neg (p := fun v : PollFd => v.fd == fd)
          (fun hb => h (beq_iff_eq.mp hb))

theorem Entries.cons (h : Entries b cs es) : ∃ e0 es', es = e0 :: es' ∧ e0.fd = b := by
  cases es with
  | nil => cases h.head
  | cons e0 es' => exact ⟨e0, es', rfl, Option.some.inj h.head⟩

theorem Entries.find {e0 : PollFd} (h : Entries b cs (e0 :: es)) (h0 : e0.fd = b) (fd : Int) :
    (fd ≠ b ∧ fd ∈ cs.map SetCall.socket ∧
      ∃ e, es.find? (fun v => v.fd == fd) = some e ∧ e.fd = fd ∧ e.events = mask cs fd) ∨
    ((fd = b ∨ fd ∉ cs.map SetCall.socket) ∧ es.find? (fun v => v.fd == fd) = none) := by
  cases hf : es.find? (fun v => v.fd == fd) with
  | some e =>
    have he := List.mem_of_find?_eq_some hf
    have hfd : e.fd = fd := beq_iff_eq.mp (List.find?_some (p := fun v : PollFd => v.fd == fd) hf)
    have hb : fd ≠ b := by
      rintro rfl
      refine (List.nodup_cons.mp h.nodup).1 ?_
      rw [h0, ← hfd]
      exact List.mem_map_of_mem he
    refine Or.inl ⟨hb, (h.asked fd hb).mp ?_, e, rfl, hfd, ?_⟩
    · exact hfd ▸ List.mem_map_of_mem (List.mem_cons_of_mem _ he)
    · rw [h.events e (List.mem_cons_of_mem _ he) (by rw [hfd]; exact hb), hfd]
  | none =>
    refine Or.inr ⟨?_, rfl⟩
    by_cases hb : fd = b
    · exact Or.inl hb
    · refine Or.inr fun hm => ?_
      obtain ⟨e, he, hfd⟩ := List.mem_map.mp ((h.asked fd hb).mpr hm)
      rcases List.mem_cons.mp he with rfl | he
      · exact hb (hfd.symm.trans h0)
      · exact List.find?_eq_none.mp hf e he (beq_iff_eq.mpr hfd)

/-- a lookup after `Select`, for a test of the `revents` that 0 does not pass -/
theorem select_isSet (h : Entries b cs s.socket_poll_.events_)
    (hs : s.select (R.outcome s.socket_poll_.events_) r = some s') (test : BitVec 16 → Bool)
    (ht : test 0 = false) (fd : Int) :
    s'.isSet (fun e => test e.poll_event_.revents) fd =
      (decide (fd ≠ b) && R.answers cs test fd) := by
  obtain ⟨p, hp, rfl⟩ := Option.map_eq_some_iff.mp hs
  obtain ⟨e0, es, hes, h0⟩ := h.cons
  rw [hes] at h
  cases R with
  | error errno =>
    have hrs : (PollOutcome.error errno).revents s.socket_poll_.events_.length =
        0 :: List.replicate es.length 0 := by
      rw [hes]
      rfl
    obtain ⟨p', hp', -, -, htr⟩ := SocketPoll.poll_eq (r := r) hes hrs List.length_replicate
    rw [Reply.outcome, hp'] at hp
    cases hp
    rw [isSet, htr, SocketPoll.fired_zeros, Reply.answers, Bool.and_false]
    rfl
  | ok K =>
    have hrs : (Reply.outcome (.ok K) s.socket_poll_.events_).revents
        s.socket_poll_.events_.length = K e0.fd e0.events :: es.map fun e => K e.fd e.events := by
      rw [hes]
      rfl
    obtain ⟨p', hp', -, -, htr⟩ := SocketPoll.poll_eq (r := r) hes hrs (List.length_map _)
    rw [hp'] at hp
    cases hp
    rw [isSet, htr, List.find?_map]
    have hfind := fired_find (fun e => K e.fd e.events) (List.nodup_cons.mp h.nodup).2 fd
    show Option.any _ (Option.map _ ((SocketPoll.fired es _).find? fun v => v.fd == fd)) = _
    rw [hfind, Reply.answers]
    rcases h.find h0 fd with ⟨hb, hm, e, he, hfd, hev⟩ | ⟨hno, he⟩
    · rw [he, decide_eq_true hb, decide_eq_true hm, ← hev]
      show Option.any _ (Option.map _ (if K e.fd e.events = 0 then none else _)) = _
      rw [hfd]
      split
      · rename_i hz
        rw [hz, ht]
        rfl
      · rfl
    · rw [he]
      rcases hno with hb | hm
      · rw [decide_eq_false (not_not_intro hb)]
        rfl
      · rw [decide_eq_false hm, Bool.false_and, Bool.and_false]
        rfl

theorem preSelect_isSet {s₀ : SocketSelect} (hb : s₀.socket_poll_.fds.head? = some b)
    (hpre : s₀.preSelect = some s)
    (hs : (s.sets cs).select (R.outcome (s.sets cs).socket_poll_.events_) r = some s')
    (test : BitVec 16 → Bool) (ht : test 0 = false) (fd : Int) :
    s'.isSet (fun e => test e.poll_event_.revents) fd =
      (decide (fd ≠ b) && R.answers cs test fd) := by
  obtain ⟨b', hb', h⟩ := preSelect_entries hpre
  have hbb : b' = b := Option.some.inj (hb'.symm.trans hb)
  subst hbb
  have hent := sets_entries h cs
  rw [List.nil_append] at hent
  exact select_isSet hent hs test ht fd

/-- **What `_FD_ISSET` says after `PreSelect`, any calls of `_FD_SET` and `Select`**, whatever the
object was used for before: of a descriptor other than the breaker's what the system says of it in a
poll for its own calls, of the breaker's nothing. -/
theorem select_answers {s₀ : SocketSelect} (hb : s₀.socket_poll_.fds.head? = some b)
    (hpre : s₀.preSelect = some s)
    (hs : (s.sets cs).select (R.outcome (s.sets cs).socket_poll_.events_) r = some s') (fd : Int) :
    s'.read_FD_ISSET fd = (decide (fd ≠ b) && R.answers cs readable fd) ∧
      s'.write_FD_ISSET fd = (decide (fd ≠ b) && R.answers cs writable fd) ∧
      s'.exception_FD_ISSET fd = (decide (fd ≠ b) && R.answers cs broken fd) := by
  exact ⟨preSelect_isSet hb hpre hs readable (by decide) fd,
    preSelect_isSet hb hpre hs writable (by decide) fd,
    preSelect_isSet hb hpre hs broken (by decide) fd⟩

theorem select_answers_two :
    ∃ s, ((new {} false).sets [.read 5, .write 5, .exception 6]).select
        (Reply.outcome (.ok fun fd ev => if fd = 5 then ev else 0)
          ((new {} false).sets [.read 5, .write 5, .exception 6]).socket_poll_.events_) 0 = some s ∧
      s.read_FD_ISSET 5 = true ∧ s.write_FD_ISSET 6 = false :=
  have hb : (new {} false).socket_poll_.fds.head? = some (-1) := rfl
  have hpre : (new {} false).preSelect = some (new {} false) := rfl
  have hans := fun s (hs : ((new {} false).sets [.read 5, .write 5, .exception 6]).select
    (Reply.outcome (.ok fun fd ev => if fd = 5 then ev else 0)
      ((new {} false).sets [.read 5, .write 5, .exception 6]).socket_poll_.events_) 0 = some s) =>
    select_answers hb hpre hs
  ⟨_, rfl, (hans _ rfl 5).1.trans (by decide), (hans _ rfl 6).2.1.trans (by decide)⟩

end

end SocketSelect
