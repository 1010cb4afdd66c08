import LearnDiary.Socket.Udp

/-!
# What `UdpClient` and `UdpServer` send

* `Queued.effect`    what was sent and what is on the queue are the datagrams of the calls;
* `Awake.effect`     a thread that waits to read while something is on the queue will be woken;
* `Timely.effect`    and where a thread has ended, the call that appended will start one;
* `run_datagrams`    the two classes, in every run that avoids two steps.
-/

namespace Udp
open Runs

section
variable {ν : Type*}

/-- what is to be sent in the round of the loop -/
def Pc.buf : Pc ν → Option (ν × Bytes)
  | .select buf | .clear buf _ | .test buf _ => buf
  | _ => none

/-- the queue, and what was sent -/
structure Queued (s : State ν) : Prop where
  calls : s.pc ≠ .pop → s.calls = s.sent ++ s.list_buffer_.map UdpSendData.message
  popping : s.pc = .pop → s.calls = s.sent ++ s.list_buffer_.tail.map UdpSendData.message
  front : ∀ d, s.pc.buf = some d → s.list_buffer_.head?.map UdpSendData.message = some d
  pop : s.pc = .pop → s.list_buffer_ ≠ []

/-- the thread, the breaker and the queue -/
structure Awake (s : State ν) : Prop where
  select : s.pc = .select none → s.list_buffer_ ≠ [] → s.breaker_.broken_ = true ∨ s.call.isSome
  wakes : s.breaker_.Wakes
  pipe : s.breaker_.unread.isSome = true
  ended : s.thread_.isended = true ↔ s.pc = .idle
  number : ∀ d ∈ s.list_buffer_, d.number < s.calls.length
  invalid : s.fd_socket_ = -1 → s.list_buffer_ = []

/-- a datagram of the queue came after the last `OnError` -/
def State.Late (s : State ν) : Prop := ∃ d ∈ s.list_buffer_, s.errors ≤ d.number

/-- where no thread is left to send them, the late datagrams are those of the call that starts one -/
structure Timely (s : State ν) : Prop where
  left : s.pc = .left → ¬ s.Late
  idle : s.pc = .idle → s.Late → s.call = some .test ∨ s.call = some .start

/-- what is asked of a step: `recvfrom` gives no datagram in a round that was to send -/
def Keeps (s : State ν) : Act ν → Prop
  | .go io => ∀ d o, s.pc = .test (some d) o → o.does = .recvfrom → io = -1
  | _ => True

/-- and: `SendAsync` takes `mutex_` while no thread is between `OnError` and its end, and
`pthread_create` succeeds -/
def Meets (s : State ν) : Act ν → Prop
  | .SendAsync _ _ => s.pc ≠ .left
  | .start created => created.isSome = true
  | _ => True

end

section
variable {ν : Type*} {s s' : State ν} {a : Act ν}

theorem data_write (_buf : Bytes) : (AutoBuffer.new.write _buf).data = _buf := by
  rw [AutoBuffer.write_data]
  · rfl
  · rfl

/-! ## the wake-up -/

theorem Awake.goto (ha : Awake s) (hb : s'.breaker_ = s.breaker_)
    (hl : s'.list_buffer_ = s.list_buffer_) (hc : s'.calls = s.calls)
    (hf : s'.fd_socket_ = s.fd_socket_) (he : s'.thread_.isended = true ↔ s'.pc = .idle)
    (hs : s'.pc = .select none → s.list_buffer_ ≠ [] →
      s.breaker_.broken_ = true ∨ s'.call.isSome) : Awake s' := by
  constructor
  · rw [hb, hl]
    exact hs
  · rw [hb]
    exact ha.wakes
  · rw [hb]
    exact ha.pipe
  · exact he
  · rw [hl, hc]
    exact ha.number
  · rw [hl, hf]
    exact ha.invalid

theorem Awake.push (ha : Awake s) (hfd : s.fd_socket_ ≠ -1) (_addr : ν) (_buf : Bytes) :
    Awake (s.push _addr _buf) := by
  refine ⟨fun _ _ => .inr rfl, ha.wakes, ha.pipe, ha.ended, ?_, fun h => absurd h hfd⟩
  intro d hd
  show d.number < (s.calls ++ [_]).length
  rw [List.length_append]
  rcases List.mem_append.mp hd with hd | hd
  · exact Nat.lt_add_right _ (ha.number d hd)
  · rw [List.mem_singleton.mp hd]
    exact Nat.lt_add_one _

theorem Awake.poke (ha : Awake s) (k : Option Call) : Awake (s.poke k) :=
  ⟨fun _ _ => .inl (SocketBreaker.break_broken _), SocketBreaker.break_wakes ha.wakes 1, SocketBreaker.break_pipe ha.pipe 1,
    ha.ended, ha.number, ha.invalid⟩

theorem Awake.not_ended (ha : Awake s) (hpc : s.pc ≠ .idle) (hpc' : s'.pc ≠ .idle)
    (ht : s'.thread_.isended = s.thread_.isended) : s'.thread_.isended = true ↔ s'.pc = .idle := by
  rw [ht]
  exact ⟨fun h => absurd (ha.ended.mp h) hpc, fun h => absurd h hpc'⟩

theorem Awake.returned (ha : Awake s) {bWriteSet : Bool} {ret : Int} (hpc : s.pc ≠ .idle) :
    Awake (s.returned bWriteSet ret) := by
  refine ha.goto rfl rfl rfl rfl (ha.not_ended hpc ?_ rfl) ?_
  · unfold State.returned State.goto
    dsimp only
    split_ifs <;> nofun
  · intro h
    unfold State.returned State.goto at h
    dsimp only at h
    split_ifs at h

theorem Awake.effect (ha : Awake s) (he : Effect s a s') : Awake s' := by
  cases he with
  | invalid => exact ha
  | pushes hfd => exact ha.push hfd _ _
  | tests => exact ha.goto rfl rfl rfl rfl ha.ended (fun _ _ => .inr rfl)
  | runs => exact ha.goto rfl rfl rfl rfl ha.ended (fun _ _ => .inr rfl)
  | @starts created _ hend =>
    have hidle := ha.ended.mp hend
    refine ha.goto rfl rfl rfl rfl ?_ (fun _ _ => .inr rfl)
    cases created with
    | some tid => exact ⟨nofun, nofun⟩
    | none => exact ⟨fun _ => hidle, fun _ => rfl⟩
  | pokes => exact ha.poke _
  | begins hpc =>
    refine ha.goto rfl rfl rfl rfl (ha.not_ended (by rw [hpc]; nofun) ?_ rfl) ?_
    · show (if s.fd_socket_ = -1 then Pc.left else Pc.head) ≠ .idle
      split_ifs <;> nofun
    · intro h
      change (if s.fd_socket_ = -1 then Pc.left else Pc.head) = .select none at h
      split_ifs at h
  | heads hpc =>
    refine ha.goto rfl rfl rfl rfl (ha.not_ended (by rw [hpc]; nofun) nofun rfl) ?_
    intro h hne
    have hnone := Option.map_eq_none_iff.mp (Pc.select.inj h)
    exact absurd (List.head?_eq_none_iff.mp hnone) hne
  | selects hpc =>
    exact ha.goto rfl rfl rfl rfl (ha.not_ended (by rw [hpc]; nofun) nofun rfl) nofun
  | clears hpc =>
    exact ⟨nofun, SocketBreaker.clear_wakes ha.wakes _, SocketBreaker.clear_pipe ha.pipe _,
      ha.not_ended (by rw [hpc]; nofun) nofun rfl, ha.number, ha.invalid⟩
  | @sends buf o io hpc =>
    have hs : Awake (s.sends buf) := ha.goto rfl rfl rfl rfl ha.ended ha.select
    exact hs.returned (by show s.pc ≠ _; rw [hpc]; nofun)
  | receives hpc => exact ha.returned (by rw [hpc]; nofun)
  | returns hpc => exact ha.returned (by rw [hpc]; nofun)
  | pops hpc =>
    refine ⟨nofun, ha.wakes, ha.pipe, ha.not_ended (by rw [hpc]; nofun) nofun rfl, ?_, ?_⟩
    · exact fun d hd => ha.number d (List.mem_of_mem_tail hd)
    · intro h
      show s.list_buffer_.tail = []
      rw [ha.invalid h]
      rfl
  | fails hpc =>
    exact ha.goto rfl rfl rfl rfl (ha.not_ended (by rw [hpc]; nofun) nofun rfl) nofun
  | ends => exact ha.goto rfl rfl rfl rfl ⟨fun _ => rfl, fun _ => rfl⟩ nofun

/-! ## the end of a thread -/

theorem Timely.of_pc (hl : s'.pc ≠ .left) (hi : s'.pc ≠ .idle) : Timely s' :=
  ⟨fun h => absurd h hl, fun h => absurd h hi⟩

theorem Timely.same (ht : Timely s) (hpc : s'.pc = s.pc) (hl : s'.Late → s.Late)
    (hc : s'.call = s.call) : Timely s' := by
  constructor
  · rw [hpc]
    exact fun h h' => ht.left h (hl h')
  · rw [hpc, hc]
    exact fun h h' => ht.idle h (hl h')

theorem Timely.returned {bWriteSet : Bool} {ret : Int} : Timely (s.returned bWriteSet ret) := by
  apply Timely.of_pc
  all_goals
    unfold State.returned State.goto
    dsimp only
    split_ifs <;> nofun

theorem Timely.effect (ht : Timely s) (ha : Awake s) (hm : Meets s a) (he : Effect s a s') :
    Timely s' := by
  cases he with
  | invalid => exact ht
  | pushes => exact ⟨fun h => absurd h hm, fun _ _ => .inl rfl⟩
  | @tests k hc hk =>
    refine ⟨ht.left, fun hpc _ => .inr ?_⟩
    rw [if_pos (ha.ended.mpr hpc)] at hk
    rw [hk]
    rfl
  | runs _ hend =>
    refine ⟨ht.left, fun hpc => ?_⟩
    rw [ha.ended.mpr hpc] at hend
    cases hend
  | @starts created =>
    have hpc : (s.start created).pc = .starting := if_pos hm
    exact .of_pc (by rw [hpc]; nofun) (by rw [hpc]; nofun)
  | @pokes _ k hk =>
    rcases hk with rfl | ⟨hc, rfl⟩
    · exact ht.same rfl id rfl
    · refine ⟨ht.left, fun hpc hl => ?_⟩
      rcases ht.idle hpc hl with h | h <;> rw [hc] at h <;> cases h
  | begins =>
    constructor
    · intro hpc ⟨d, hd, _⟩
      change (if s.fd_socket_ = -1 then Pc.left else Pc.head) = .left at hpc
      split_ifs at hpc with hfd
      change d ∈ s.list_buffer_ at hd
      rw [ha.invalid hfd] at hd
      cases hd
    · intro hpc
      change (if s.fd_socket_ = -1 then Pc.left else Pc.head) = .idle at hpc
      split_ifs at hpc
  | heads => exact .of_pc nofun nofun
  | selects => exact .of_pc nofun nofun
  | clears => exact .of_pc nofun nofun
  | sends => exact .returned
  | receives => exact .returned
  | returns => exact .returned
  | pops => exact .of_pc nofun nofun
  | fails =>
    refine ⟨fun _ ⟨d, hd, hle⟩ => ?_, nofun⟩
    exact absurd (ha.number d hd) (Nat.not_lt_of_le hle)
  | ends hpc => exact ⟨nofun, fun _ hl => absurd hl (ht.left hpc)⟩

/-! ## what is sent -/

theorem Queued.of_eq (hq : Queued s) (hpc : s'.pc = s.pc) (hl : s'.list_buffer_ = s.list_buffer_)
    (hc : s'.calls = s.calls) (hs : s'.sent = s.sent) : Queued s' := by
  constructor
  · rw [hpc, hc, hs, hl]
    exact hq.calls
  · rw [hpc, hc, hs, hl]
    exact hq.popping
  · rw [hpc, hl]
    exact hq.front
  · rw [hpc, hl]
    exact hq.pop

theorem Queued.goto (hq : Queued s) (hpc : s.pc ≠ .pop) (hl : s'.list_buffer_ = s.list_buffer_)
    (hc : s'.calls = s.calls) (hs : s'.sent = s.sent) (hpc' : s'.pc ≠ .pop)
    (hb : ∀ d, s'.pc.buf = some d → s.list_buffer_.head?.map UdpSendData.message = some d) :
    Queued s' := by
  constructor
  · intro _
    rw [hc, hs, hl]
    exact hq.calls hpc
  · exact fun h => absurd h hpc'
  · rw [hl]
    exact hb
  · exact fun h => absurd h hpc'

theorem Queued.push (hq : Queued s) (_addr : ν) (_buf : Bytes) : Queued (s.push _addr _buf) := by
  have hm : (⟨_addr, AutoBuffer.new.write _buf, s.calls.length⟩ : UdpSendData ν).message =
      (_addr, _buf) := by
    rw [UdpSendData.message, data_write]
  constructor
  · intro hpc
    show s.calls ++ [(_addr, _buf)] = s.sent ++ (s.list_buffer_ ++ _).map _
    rw [List.map_append, List.map_singleton, hm, hq.calls hpc, List.append_assoc]
  · intro hpc
    show s.calls ++ [(_addr, _buf)] = s.sent ++ (s.list_buffer_ ++ _).tail.map _
    rw [List.tail_append_of_ne_nil (hq.pop hpc), List.map_append, List.map_singleton, hm,
      hq.popping hpc, List.append_assoc]
  · intro d hd
    have hf := hq.front d hd
    show (s.list_buffer_ ++ _).head?.map _ = some d
    cases hl : s.list_buffer_ with
    | nil =>
      rw [hl] at hf
      cases hf
    | cons x l =>
      rw [hl] at hf
      exact hf
  · exact fun _ => List.append_ne_nil_of_right_ne_nil _ (List.cons_ne_nil _ _)

theorem returned_buf (bWriteSet : Bool) (ret : Int) : (s.returned bWriteSet ret).pc.buf = none := by
  unfold State.returned State.goto
  dsimp only
  split_ifs <;> rfl

theorem returned_pop {bWriteSet : Bool} {ret : Int} (h : (s.returned bWriteSet ret).pc = .pop) :
    bWriteSet = true ∧ ret ≠ -1 ∧ ret ≠ -2 := by
  unfold State.returned State.goto at h
  dsimp only at h
  split_ifs at h with h₁ h₂ h₃
  exact ⟨h₃, h₁, h₂⟩

theorem Queued.returned (hq : Queued s) {bWriteSet : Bool} {ret : Int} (hpc : s.pc ≠ .pop)
    (hret : bWriteSet = true → ret = -1 ∨ ret = -2) : Queued (s.returned bWriteSet ret) := by
  refine hq.goto hpc rfl rfl rfl ?_ ?_
  · intro h
    obtain ⟨hb, h₁, h₂⟩ := returned_pop h
    exact (hret hb).elim h₁ h₂
  · intro d hd
    rw [returned_buf] at hd
    cases hd

theorem Queued.sends (hq : Queued s) {buf : Option (ν × Bytes)} {o : Selected} {io : Int}
    (hpc : s.pc = .test buf o) (hio : 0 ≤ io) :
    Queued ((s.sends buf).returned buf.isSome io) := by
  have hne : s.pc ≠ .pop := by
    rw [hpc]
    nofun
  cases buf with
  | none =>
    have hq' : Queued (s.sends none) := hq.of_eq rfl rfl rfl (List.append_nil _)
    exact hq'.returned hne nofun
  | some d =>
    have hf := hq.front d (by rw [hpc]; rfl)
    have hpop : ((s.sends (some d)).returned true io).pc = .pop := by
      unfold State.returned State.goto
      dsimp only
      rw [if_neg (by omega), if_neg (by omega), if_pos rfl]
    cases hl : s.list_buffer_ with
    | nil =>
      rw [hl] at hf
      cases hf
    | cons x l =>
      have hx : x.message = d := by
        rw [hl] at hf
        exact Option.some.inj hf
      have hc := hq.calls hne
      rw [hl, List.map_cons, hx] at hc
      constructor
      · exact fun h => absurd hpop h
      · intro _
        show s.calls = (s.sent ++ [d]) ++ s.list_buffer_.tail.map UdpSendData.message
        rw [hc, hl, List.append_assoc]
        rfl
      · intro e he
        rw [returned_buf] at he
        cases he
      · intro _
        show s.list_buffer_ ≠ []
        rw [hl]
        exact List.cons_ne_nil _ _

theorem start_pc (s : State ν) (created : Option Nat) (h : s.pc = .idle) :
    (s.start created).pc = .starting ∨ (s.start created).pc = .idle := by
  cases created with
  | some tid => exact .inl rfl
  | none => exact .inr h

theorem Queued.effect (hq : Queued s) (ha : Awake s) (hk : Keeps s a) (he : Effect s a s') :
    Queued s' := by
  cases he with
  | invalid => exact hq
  | pushes => exact hq.push _ _
  | tests => exact hq.of_eq rfl rfl rfl rfl
  | runs => exact hq.of_eq rfl rfl rfl rfl
  | @starts created _ hend =>
    have hidle := ha.ended.mp hend
    refine hq.goto (by rw [hidle]; nofun) rfl rfl rfl ?_ ?_
    · rcases start_pc s created hidle with h | h <;> rw [h] <;> nofun
    · rcases start_pc s created hidle with h | h <;> rw [h] <;> nofun
  | pokes => exact hq.of_eq rfl rfl rfl rfl
  | begins hpc =>
    refine hq.goto (by rw [hpc]; nofun) rfl rfl rfl ?_ ?_
    · show (if s.fd_socket_ = -1 then Pc.left else Pc.head) ≠ .pop
      split_ifs <;> nofun
    · intro d hd
      change (if s.fd_socket_ = -1 then Pc.left else Pc.head).buf = some d at hd
      split_ifs at hd <;> cases hd
  | heads hpc => exact hq.goto (by rw [hpc]; nofun) rfl rfl rfl nofun (fun d hd => hd)
  | selects hpc =>
    refine hq.goto (by rw [hpc]; nofun) rfl rfl rfl nofun ?_
    exact fun d hd => hq.front d (by rw [hpc]; exact hd)
  | clears hpc =>
    refine hq.goto (by rw [hpc]; nofun) rfl rfl rfl nofun ?_
    exact fun d hd => hq.front d (by rw [hpc]; exact hd)
  | sends hpc hio => exact hq.sends hpc hio
  | @receives buf o io hpc hd =>
    refine hq.returned (by rw [hpc]; nofun) ?_
    intro hb
    obtain ⟨d, rfl⟩ := Option.isSome_iff_exists.mp hb
    exact .inl (hk d o hpc hd)
  | returns hpc hret => exact hq.returned (by rw [hpc]; nofun) (fun _ => hret)
  | pops hpc =>
    constructor
    · exact fun _ => hq.popping hpc
    · nofun
    · nofun
    · nofun
  | fails hpc => exact hq.goto (by rw [hpc]; nofun) rfl rfl rfl nofun nofun
  | ends hpc => exact hq.goto (by rw [hpc]; nofun) rfl rfl rfl nofun nofun

/-! ## runs -/

section
variable {started : Option (Option Nat)} {fd : Int} {p q : Nat}

theorem new_isended : (State.new (ν := ν) fd p q started).thread_.isended = true ↔
    (State.new (ν := ν) fd p q started).pc = .idle := by
  rcases started with _ | _ | tid
  · exact ⟨fun _ => rfl, fun _ => rfl⟩
  · exact ⟨fun _ => rfl, fun _ => rfl⟩
  · exact ⟨nofun, nofun⟩

theorem new_pc (started : Option (Option Nat)) (fd : Int) (p q : Nat) :
    (State.new (ν := ν) fd p q started).pc = .idle ∨
    (State.new (ν := ν) fd p q started).pc = .starting := by
  rcases started with _ | _ | tid
  · exact .inl rfl
  · exact .inl rfl
  · exact .inr rfl

theorem Awake.new : Awake (State.new (ν := ν) fd p q started) :=
  ⟨fun _ h => absurd rfl h, SocketBreaker.new_wakes _, rfl, new_isended, nofun, fun _ => rfl⟩

theorem Queued.new : Queued (State.new (ν := ν) fd p q started) := by
  refine ⟨fun _ => rfl, fun _ => rfl, ?_, ?_⟩
  · rcases new_pc (ν := ν) started fd p q with h | h
    all_goals
      rw [h]
      nofun
  · rcases new_pc (ν := ν) started fd p q with h | h
    all_goals
      rw [h]
      nofun

theorem Timely.new : Timely (State.new (ν := ν) fd p q started) := by
  have hl : ¬ (State.new (ν := ν) fd p q started).Late := by
    rintro ⟨d, hd, -⟩
    cases hd
  exact ⟨fun _ => hl, fun _ h => absurd h hl⟩

theorem Queued.run (h : Run step Keeps (State.new fd p q started) s) : Awake s ∧ Queued s := by
  refine h.keep (P := fun s => Awake s ∧ Queued s) ?_ ⟨.new, .new⟩
  rintro s a s' ⟨ha, hq⟩ hk hs
  have he := step_effect hs
  exact ⟨ha.effect he, hq.effect ha hk he⟩

theorem Timely.run (h : Run step Meets (State.new fd p q started) s) : Awake s ∧ Timely s := by
  refine h.keep (P := fun s => Awake s ∧ Timely s) ?_ ⟨.new, .new⟩
  rintro s a s' ⟨ha, ht⟩ hm hs
  have he := step_effect hs
  exact ⟨ha.effect he, ht.effect ha hm he⟩

end

/-- what was sent is the first of what was handed to `SendAsync`, in the order of the calls -/
def State.InOrder (s : State ν) : Prop := s.sent <+: s.calls

/-- where a late datagram is on the queue, a thread that waits to read is woken, and one that has
ended is started again, or the call that holds `mutex_` is yet to do that -/
def State.Served (s : State ν) : Prop :=
  s.Late → (s.pc = .select none → s.breaker_.Readable ∨ s.call.isSome) ∧
    (s.thread_.isended = true → s.call = some .test ∨ s.call = some .start)

theorem Queued.inOrder (hq : Queued s) : s.InOrder := by
  by_cases hpc : s.pc = .pop
  · exact ⟨_, (hq.popping hpc).symm⟩
  · exact ⟨_, (hq.calls hpc).symm⟩

theorem Timely.served (ht : Timely s) (ha : Awake s) : s.Served := by
  intro hl
  constructor
  · intro hpc
    obtain ⟨d, hd, -⟩ := hl
    rcases ha.select hpc (List.ne_nil_of_mem hd) with hb | hc
    · exact .inl (ha.wakes hb ha.pipe)
    · exact .inr hc
  · intro hend
    exact ht.idle (ha.ended.mp hend) hl

/-- **What the two classes send**, as long as `recvfrom` gives no datagram in a round that was to
send; and **who wakes and starts the thread**, as long as no call takes `mutex_` between `OnError`
and the end of the thread and `pthread_create` succeeds. -/
theorem run_datagrams {ν : Type*} :
    (∀ (fd : Int) (p q : Nat) (s : State Unit),
      (Run step Keeps (UdpClient.new fd p q) s → s.InOrder) ∧
      (Run step Meets (UdpClient.new fd p q) s → s.Served)) ∧
    ∀ (fd : Int) (p q : Nat) (created : Option Nat) (s : State ν),
      (Run step Keeps (UdpServer.new fd p q created) s → s.InOrder) ∧
      (Run step Meets (UdpServer.new fd p q created) s → s.Served) := by
  refine ⟨fun fd p q s => ⟨?_, ?_⟩, fun fd p q created s => ⟨?_, ?_⟩⟩
  · exact fun h => (Queued.run h).2.inOrder
  · exact fun h => (Timely.run h).2.served (Timely.run h).1
  · exact fun h => (Queued.run h).2.inOrder
  · exact fun h => (Timely.run h).2.served (Timely.run h).1

/-- a datagram for the address 9 comes while the server waits to read -/
theorem run_datagrams_server : ∃ s : State Nat, s.pc = .select none ∧ s.Late ∧
    (s.breaker_.Readable ∨ s.call.isSome) ∧ s.InOrder := by
  obtain ⟨s, hs, hpc, hlate⟩ : ∃ s : State Nat,
      Run step (fun s a => Keeps s a ∧ Meets s a) (UdpServer.new 3 4 5 (some 1)) s ∧
        s.pc = .select none ∧ s.Late := by
    have hrun : Run step (fun s a => Keeps s a ∧ Meets s a) (UdpServer.new 3 4 5 (some 1)) _ :=
      .one (a := (.run : Act Nat)) ⟨trivial, trivial⟩ rfl
    have hcall := (hrun.tail ⟨.head, ⟨trivial, trivial⟩, rfl⟩).tail
      ⟨.SendAsync 9 [1, 2], ⟨trivial, nofun⟩, rfl⟩
    have hdone := (hcall.tail ⟨.test, ⟨trivial, trivial⟩, rfl⟩).tail
      ⟨.poke, ⟨trivial, trivial⟩, rfl⟩
    exact ⟨_, hdone, rfl, _, List.mem_singleton.mpr rfl, Nat.le_refl 0⟩
  have hall := run_datagrams.2 3 4 5 (some 1) s
  have hserved := hall.2 (hs.mono (fun _ _ h => h.2))
  exact ⟨s, hpc, hlate, (hserved hlate).1 hpc, hall.1 (hs.mono (fun _ _ h => h.1))⟩

/-- a `SendAsync` behind `OnError` -/
def stranded : List (Act Unit) :=
  [.SendAsync () [1], .test, .start (some 1), .poke, .run, .head, .select .failed, .clear 1, .go 0,
    .OnError, .SendAsync () [2], .test, .poke, .ends]

/-- a round that was to send, and `poll` tells only of a hang-up -/
def dropped : List (Act Unit) :=
  [.SendAsync () [1], .test, .start (some 1), .poke, .SendAsync () [2], .test, .poke, .run, .head,
    .select (.ready POLLIN 0), .clear 1, .go 0, .head, .select (.ready 0 POLLHUP), .clear (-1),
    .go 0, .pop, .head, .select (.ready 0 POLLOUT), .clear (-1), .go 1]

/-- what is late stays on the queue with no thread; and a datagram is not sent, and the one behind
it is -/
theorem datagrams_lost :
    (∃ s, AnyRun step (UdpClient.new 3 4 5) s ∧ s.Late ∧ s.thread_.isended = true ∧
      s.call = none) ∧
    ∃ s, AnyRun step (UdpClient.new 3 4 5) s ∧ s.calls = [((), [1]), ((), [2])] ∧
      s.sent = [((), [2])] := by
  constructor
  · refine ⟨_, Run.of_exec (l := stranded) rfl, ⟨⟨(), AutoBuffer.new.write [2], 1⟩, ?_, Nat.le_refl 1⟩,
      rfl, rfl⟩
    exact List.mem_cons_of_mem _ (List.mem_singleton.mpr rfl)
  · exact ⟨_, Run.of_exec (l := dropped) rfl, rfl, rfl⟩

end
end Udp
