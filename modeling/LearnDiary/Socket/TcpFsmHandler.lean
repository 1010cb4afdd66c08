import LearnDiary.Socket.TcpServerFsm

/-!
# `TcpFSMHandler` (comm/socket/tcp_fsm_handler.h)

One thread drives many machines: a round asks each of them for its sets, selects once and shows the
outcome to all.

* `Local`          a machine that asks and looks only for its own descriptor;
* `handler_alone`  in a round it goes on as if it had been selected for alone;
* `server_local`   a `TcpServerFSM` is such a machine;
* `run_each`, `net_run`  so each of many connections goes along a run of its own.
-/

/-- what the template asks of its machines; `α` and `β` are what the outside answers in the calls -/
structure Fsm (σ α β : Type) where
  isEndStatus : σ → Bool
  timeout : σ → Int
  preSelect : σ → α → σ × List SocketSelect.SetCall
  afterSelect : σ → Selection → β → Option σ

namespace TcpFSMHandler
open Runs SocketSelect TcpServerFSM

section
variable {σ α β : Type}

structure Asked (σ : Type) where
  machines : List σ := []
  sel : SocketSelect
  have_runing_status : Bool := false
  timeout : Int := INT_MAX

def ask (M : Fsm σ α β) (t : Asked σ) (it : σ × α) : Asked σ :=
  let (f, calls) := M.preSelect it.1 it.2
  { machines := t.machines ++ [f]
    sel := t.sel.sets calls
    have_runing_status := t.have_runing_status || !M.isEndStatus it.1
    timeout := min t.timeout (M.timeout it.1) }

/-- the machines after a round, whether it returns true, the breaker, and what `Select` was given:
-1 where it has no argument, none where it is not called -/
structure Round (σ : Type) where
  machines : List σ
  result : Bool
  breaker : SocketBreaker
  msec : Option Int

/-- `TcpFSMHandler`: `R` is what the system makes of the poll, `r` what the breaker's `read` gives -/
def tcpFSMHandler (M : Fsm σ α β) (_breaker : SocketBreaker) (_select_anyway : Bool)
    (ms : List (σ × α × β)) (R : Reply) (r : Int) : Option (Round σ) :=
  (SocketSelect.new _breaker true).preSelect.bind fun sel =>
    let t := (ms.map fun m => (m.1, m.2.1)).foldl (ask M) { sel := sel }
    if !t.have_runing_status && !_select_anyway then
      some ⟨t.machines, false, _breaker, none⟩
    else
      let msec := if t.timeout = INT_MAX then -1 else max 0 t.timeout
      (t.sel.select (R.outcome t.sel.socket_poll_.events_) r).bind fun sel =>
        if sel.ret < 0 || sel.isException || sel.isBreak then
          some ⟨t.machines, false, sel.socket_poll_.breaker_, some msec⟩
        else
          ((t.machines.zip (ms.map fun m => m.2.2)).mapM fun it =>
            M.afterSelect it.1 sel.selection it.2).map fun machines =>
              ⟨machines, true, sel.socket_poll_.breaker_, some msec⟩

/-! ## a machine alone -/

/-- two selections say the same of a descriptor -/
structure Agree (sel sel' : Selection) (fd : Int) : Prop where
  read : sel.read fd = sel'.read fd
  write : sel.write fd = sel'.write fd
  exception : sel.exception fd = sel'.exception fd

/-- a machine with the descriptor `fd`, negative where it has none, asks for this one only, and
looks only for it and for `INVALID_SOCKET` -/
structure Local (M : Fsm σ α β) (fd : σ → Int) : Prop where
  asks : ∀ f a, ∀ c ∈ (M.preSelect f a).2, c.socket = fd (M.preSelect f a).1
  looks : ∀ f sel sel' o, Agree sel sel' (fd f) → Agree sel sel' (-1) →
    M.afterSelect f sel o = M.afterSelect f sel' o

/-- a select for the calls `cs` of one machine -/
def alone (R : Reply) (cs : List SetCall) : Selection :=
  ⟨R.answers cs readable, R.answers cs writable, R.answers cs broken⟩

/-- `poll` says nothing of a negative number -/
def Ignores (R : Reply) : Prop := ∀ K, R = .ok K → ∀ fd < 0, ∀ events, K fd events = 0

section
variable {M : Fsm σ α β} {fd : σ → Int} {R : Reply} {cs cs' : List SetCall} {t : Asked σ}

theorem answers_congr {n : Int}
    (h : cs.filter (fun c => c.socket == n) = cs'.filter fun c => c.socket == n)
    (test : BitVec 16 → Bool) : R.answers cs test n = R.answers cs' test n := by
  have hmem : ∀ l : List SetCall, n ∈ l.map SetCall.socket ↔ (l.filter fun c => c.socket == n) ≠ [] := by
    intro l
    rw [← List.length_pos_iff, List.length_filter_pos_iff]
    simp only [List.mem_map, beq_iff_eq]
  cases R with
  | error e => rfl
  | ok K =>
    have hd : decide (n ∈ cs.map SetCall.socket) = decide (n ∈ cs'.map SetCall.socket) := by
      rw [decide_eq_decide, hmem, hmem, h]
    rw [Reply.answers, Reply.answers, hd, mask, mask, h]

theorem answers_ignored (hR : Ignores R) {n : Int} (hn : n < 0) {test : BitVec 16 → Bool}
    (ht : test 0 = false) : R.answers cs test n = false := by
  cases R with
  | error e => rfl
  | ok K => rw [Reply.answers, hR K rfl n hn, ht, Bool.and_false]

theorem asked_eq (M : Fsm σ α β) (l : List (σ × α)) (t : Asked σ) :
    (l.foldl (ask M) t).machines = t.machines ++ l.map (fun m => (M.preSelect m.1 m.2).1) ∧
      (l.foldl (ask M) t).sel = t.sel.sets (l.flatMap fun m => (M.preSelect m.1 m.2).2) := by
  induction l generalizing t with
  | nil => exact ⟨(List.append_nil _).symm, rfl⟩
  | cons m l ih =>
    obtain ⟨h1, h2⟩ := ih (ask M t m)
    rw [List.foldl_cons, h1, h2]
    constructor
    · rw [List.map_cons]
      exact List.append_assoc _ _ _
    · rw [List.flatMap_cons]
      exact (List.foldl_append (f := SocketSelect.set)).symm

theorem own_calls (hM : Local M fd) {l : List (σ × α)} {m : σ × α} (hm : m ∈ l)
    (hnd : ((l.map fun m => fd (M.preSelect m.1 m.2).1).filter (0 ≤ ·)).Nodup)
    (hfd : 0 ≤ fd (M.preSelect m.1 m.2).1) :
    (l.flatMap fun m => (M.preSelect m.1 m.2).2).filter
        (fun c => c.socket == fd (M.preSelect m.1 m.2).1) =
      (M.preSelect m.1 m.2).2.filter fun c => c.socket == fd (M.preSelect m.1 m.2).1 := by
  obtain ⟨l₁, l₂, rfl⟩ := List.append_of_mem hm
  rw [List.map_append, List.map_cons, List.filter_append,
    List.filter_cons_of_pos (p := fun n : Int => decide (0 ≤ n)) (decide_eq_true hfd)] at hnd
  obtain ⟨-, h₂, hdisj⟩ := List.nodup_append.mp hnd
  have hother : ∀ k : List (σ × α),
      fd (M.preSelect m.1 m.2).1 ∉ (k.map fun m => fd (M.preSelect m.1 m.2).1).filter (0 ≤ ·) →
      (k.flatMap fun m => (M.preSelect m.1 m.2).2).filter
        (fun c => c.socket == fd (M.preSelect m.1 m.2).1) = [] := by
    intro k hk
    refine List.filter_eq_nil_iff.mpr fun c hc hcs => hk ?_
    obtain ⟨y, hy, hcy⟩ := List.mem_flatMap.mp hc
    have hyfd : fd (M.preSelect y.1 y.2).1 = fd (M.preSelect m.1 m.2).1 :=
      (hM.asks _ _ c hcy).symm.trans (beq_iff_eq.mp hcs)
    rw [← hyfd] at hfd ⊢
    exact List.mem_filter.mpr ⟨List.mem_map_of_mem hy, decide_eq_true hfd⟩
  rw [List.flatMap_append, List.flatMap_cons, List.filter_append, List.filter_append,
    hother l₁ (fun hin => hdisj _ hin _ List.mem_cons_self rfl),
    hother l₂ (List.nodup_cons.mp h₂).1, List.nil_append, List.append_nil]

/-- what is looked up for a machine in the select of all is what its own select would say -/
theorem agree_alone {b : Int} {all own : List SetCall} {sel : Selection} {n : Int}
    (hread : sel.read n = (decide (n ≠ b) && R.answers all readable n))
    (hwrite : sel.write n = (decide (n ≠ b) && R.answers all writable n))
    (hexc : sel.exception n = (decide (n ≠ b) && R.answers all broken n)) (hR : Ignores R)
    (h : 0 ≤ n → n ≠ b ∧ all.filter (fun c => c.socket == n) = own.filter fun c => c.socket == n) :
    Agree sel (alone R own) n := by
  by_cases hn : n < 0
  · rw [answers_ignored hR hn (by decide), Bool.and_false] at hread hwrite hexc
    exact ⟨hread.trans (answers_ignored hR hn (by decide)).symm,
      hwrite.trans (answers_ignored hR hn (by decide)).symm,
      hexc.trans (answers_ignored hR hn (by decide)).symm⟩
  · obtain ⟨hb, hf⟩ := h (Int.not_lt.mp hn)
    rw [decide_eq_true hb, Bool.true_and, answers_congr hf] at hread hwrite hexc
    exact ⟨hread, hwrite, hexc⟩

theorem mapM_congr {ι κ : Type} {f g : ι → Option κ} {l : List ι} (h : ∀ a ∈ l, f a = g a) :
    l.mapM f = l.mapM g := by
  induction l with
  | nil => rfl
  | cons a l ih =>
    rw [List.mapM_cons, List.mapM_cons, h a List.mem_cons_self,
      ih fun x hx => h x (List.mem_cons_of_mem _ hx)]

/-- the machine of `m` after its `PreSelect` -/
def asked (M : Fsm σ α β) (m : σ × α × β) : σ := (M.preSelect m.1 m.2.1).1

def roundAlone (M : Fsm σ α β) (R : Reply) (m : σ × α × β) : Option σ :=
  M.afterSelect (asked M m) (alone R (M.preSelect m.1 m.2.1).2) m.2.2

theorem new_preSelect (b : SocketBreaker) :
    (SocketSelect.new b true).preSelect = some (SocketSelect.new b true) := rfl

/-- the `_FD_SET` calls of the first loop -/
def allCalls (M : Fsm σ α β) (ms : List (σ × α × β)) : List SetCall :=
  (ms.map fun m => (m.1, m.2.1)).flatMap fun m => (M.preSelect m.1 m.2).2

theorem round_cases {_breaker : SocketBreaker} {anyway : Bool} {ms : List (σ × α × β)} {r : Int}
    {t : Round σ} (h : tcpFSMHandler M _breaker anyway ms R r = some t) :
    (t.result = false ∧ t.machines = ms.map (asked M)) ∨
      (t.result = true ∧ ∃ sel,
        ((SocketSelect.new _breaker true).sets (allCalls M ms)).select (R.outcome
          ((SocketSelect.new _breaker true).sets (allCalls M ms)).socket_poll_.events_) r = some sel ∧
        ms.mapM (fun m => M.afterSelect (asked M m) sel.selection m.2.2) = some t.machines) := by
  have hasked := asked_eq M (ms.map fun m => (m.1, m.2.1)) { sel := SocketSelect.new _breaker true }
  rw [List.map_map, List.nil_append] at hasked
  change _ = ms.map (asked M) ∧ _ = _ at hasked
  rw [tcpFSMHandler, new_preSelect, Option.bind_some] at h
  dsimp only at h
  rw [hasked.1, hasked.2] at h
  split at h
  · cases h
    exact Or.inl ⟨rfl, rfl⟩
  · obtain ⟨sel, hsel, h⟩ := Option.bind_eq_some_iff.mp h
    split at h
    · cases h
      exact Or.inl ⟨rfl, rfl⟩
    · obtain ⟨machines, hm, rfl⟩ := Option.map_eq_some_iff.mp h
      rw [List.zip_map', List.mapM_map] at hm
      exact Or.inr ⟨rfl, sel, hsel, hm⟩

/-- the lookups of each machine after a select for all are those after a select of its own -/
theorem mapM_alone (hM : Local M fd) (hR : Ignores R) {_breaker : SocketBreaker}
    {ms : List (σ × α × β)} {r : Int} {sel : SocketSelect}
    (hnd : ((ms.map fun m => fd (asked M m)).filter (0 ≤ ·)).Nodup)
    (hb : ∀ m ∈ ms, 0 ≤ fd (asked M m) → fd (asked M m) ≠ _breaker.pipes_.1)
    (hsel : ((SocketSelect.new _breaker true).sets (allCalls M ms)).select (R.outcome
      ((SocketSelect.new _breaker true).sets (allCalls M ms)).socket_poll_.events_) r = some sel) :
    ms.mapM (fun m => M.afterSelect (asked M m) sel.selection m.2.2) = ms.mapM (roundAlone M R) := by
  refine mapM_congr fun m hmem => ?_
  have hhead : (SocketSelect.new _breaker true).socket_poll_.fds.head? =
      some _breaker.pipes_.1 := rfl
  have hans := preSelect_isSet hhead (new_preSelect _) hsel
  refine hM.looks _ _ _ _ ?_ ?_
  · refine agree_alone (hans readable (by decide) _) (hans writable (by decide) _)
      (hans broken (by decide) _) hR fun hn => ⟨hb m hmem hn, ?_⟩
    refine own_calls hM (m := (m.1, m.2.1)) (List.mem_map_of_mem hmem) ?_ hn
    rw [List.map_map]
    exact hnd
  · exact agree_alone (hans readable (by decide) _) (hans writable (by decide) _)
      (hans broken (by decide) _) hR fun hn => absurd hn (by decide)

/-- **A round is a round of every machine alone**: where the machines' open descriptors differ from
each other and from the breaker's, each is left after its `PreSelect`, when the round returns false,
or goes on with what the system says in a poll for its own calls. -/
theorem handler_alone (hM : Local M fd) (hR : Ignores R) {_breaker : SocketBreaker} {anyway : Bool}
    {ms : List (σ × α × β)} {r : Int} {t : Round σ}
    (hnd : ((ms.map fun m => fd (asked M m)).filter (0 ≤ ·)).Nodup)
    (hb : ∀ m ∈ ms, 0 ≤ fd (asked M m) → fd (asked M m) ≠ _breaker.pipes_.1)
    (h : tcpFSMHandler M _breaker anyway ms R r = some t) :
    (t.result = false ∧ t.machines = ms.map (asked M)) ∨
      (t.result = true ∧ ms.mapM (roundAlone M R) = some t.machines) := by
  rcases round_cases h with hleft | ⟨hres, sel, hsel, hm⟩
  · exact Or.inl hleft
  · rw [mapM_alone hM hR hnd hb hsel] at hm
    exact Or.inr ⟨hres, hm⟩

theorem asked_timeout (M : Fsm σ α β) (l : List (σ × α)) (t : Asked σ) :
    (l.foldl (ask M) t).timeout ≤ t.timeout ∧
      ∀ m ∈ l, (l.foldl (ask M) t).timeout ≤ M.timeout m.1 := by
  induction l generalizing t with
  | nil => exact ⟨Int.le_refl _, List.forall_mem_nil _⟩
  | cons m l ih =>
    obtain ⟨h1, h2⟩ := ih (ask M t m)
    refine ⟨Int.le_trans h1 (Int.min_le_left _ _), List.forall_mem_cons.mpr ⟨?_, h2⟩⟩
    exact Int.le_trans h1 (Int.min_le_right _ _)

/-- **What `Select` is given**: no time-out only where no machine has one, and never more than a
machine had left before its `PreSelect`. -/
theorem handler_msec {_breaker : SocketBreaker} {anyway : Bool} {ms : List (σ × α × β)} {r : Int}
    {t : Round σ} (h : tcpFSMHandler M _breaker anyway ms R r = some t) :
    t.msec = none ∨ (t.msec = some (-1) ∧ ∀ m ∈ ms, INT_MAX ≤ M.timeout m.1) ∨
      ∃ k, t.msec = some k ∧ 0 ≤ k ∧ ∀ m ∈ ms, k ≤ max 0 (M.timeout m.1) := by
  obtain ⟨-, hle⟩ :=
    asked_timeout M (ms.map fun m => (m.1, m.2.1)) { sel := SocketSelect.new _breaker true }
  have hms : ∀ k, (∃ T : Int, k = some (if T = INT_MAX then -1 else max 0 T) ∧
      ∀ m ∈ ms, T ≤ M.timeout m.1) →
      k = none ∨ (k = some (-1) ∧ ∀ m ∈ ms, INT_MAX ≤ M.timeout m.1) ∨
        ∃ n, k = some n ∧ 0 ≤ n ∧ ∀ m ∈ ms, n ≤ max 0 (M.timeout m.1) := by
    rintro k ⟨T, rfl, hT⟩
    refine Or.inr ?_
    split
    · rename_i hmax
      exact Or.inl ⟨rfl, hmax ▸ hT⟩
    · refine Or.inr ⟨_, rfl, Int.le_max_left _ _, fun m hm => ?_⟩
      have := hT m hm
      omega
  have hT : ∀ m ∈ ms, _ ≤ M.timeout m.1 := fun m hm =>
    hle (m.1, m.2.1) (List.mem_map_of_mem (f := fun m : σ × α × β => (m.1, m.2.1)) hm)
  rw [tcpFSMHandler, new_preSelect, Option.bind_some] at h
  dsimp only at h
  split at h
  · cases h
    exact Or.inl rfl
  · obtain ⟨sel, -, h⟩ := Option.bind_eq_some_iff.mp h
    split at h
    · cases h
      exact hms _ ⟨_, rfl, hT⟩
    · obtain ⟨machines, -, rfl⟩ := Option.map_eq_some_iff.mp h
      exact hms _ ⟨_, rfl, hT⟩

end

/-! ## the machines of accepted connections -/

/-- a `TcpServerFSM` with its log, as the template sees it -/
def server {δ : Type} (V : Callbacks δ α) (readWriteTimeout : TcpServerFSM δ → Int) :
    Fsm (State δ) α (Syscalls α) where
  isEndStatus := fun s => decide (s.fsm.status_ = .kEnd)
  timeout := fun s => s.fsm.timeout (readWriteTimeout s.fsm)
  preSelect := fun s a =>
    ({ fsm := (s.fsm.preSelect V a).1, log := s.log ++ (s.fsm.preSelect V a).2.1 },
      (s.fsm.preSelect V a).2.2)
  afterSelect := fun s sel o => step V s (.afterSelect sel o)

section
variable {δ : Type} {V : Callbacks δ α} {f : TcpServerFSM δ} {sel sel' : Selection}
  {o : Syscalls α} {rw : TcpServerFSM δ → Int}

theorem preReadWriteSelect_asks (f : TcpServerFSM δ) :
    ∀ c ∈ f.preReadWriteSelect.2, c.socket = f.preReadWriteSelect.1.socket := by
  have hsock : f.preReadWriteSelect.1.socket = f.socket := rfl
  intro c hc
  rw [hsock]
  unfold preReadWriteSelect at hc
  rcases List.mem_cons.mp hc with rfl | hc
  · rfl
  rcases List.mem_cons.mp hc with rfl | hc
  · rfl
  split at hc
  · rw [List.mem_singleton.mp hc]
    rfl
  · cases hc

theorem preSelect_asks (f : TcpServerFSM δ) (a : α) :
    ∀ c ∈ (f.preSelect V a).2.2, c.socket = (f.preSelect V a).1.socket := by
  unfold TcpServerFSM.preSelect
  by_cases hacc : f.status_ = .kAccept
  · rw [if_pos hacc]
    dsimp only
    rw [if_pos rfl]
    exact preReadWriteSelect_asks _
  · rw [if_neg hacc]
    dsimp only
    split
    · exact preReadWriteSelect_asks _
    · exact List.forall_mem_nil _

/-- the machine has the descriptor of `f`, or none any more -/
def Holds (f f' : TcpServerFSM δ) : Prop := f'.sock_ = f.sock_ ∨ f'.sock_ = none

theorem called_holds (f : TcpServerFSM δ) (r : Duplex δ × Option Bool) : Holds f (f.called r).1 := by
  unfold called
  cases r.2 with
  | none => exact Or.inl rfl
  | some n =>
    dsimp only
    unfold userClose TcpServerFSM.close
    split
    · exact Or.inl rfl
    · exact Or.inr rfl

theorem writePart_holds {r : (TcpServerFSM δ × List TcpServerFSM.Call) × Bool}
    (h : f.writePart V sel o = some r) : Holds f r.1.1 := by
  unfold writePart at h
  split at h
  · split at h
    · split at h
      · cases h
        exact called_holds { f with send_buf_ := _ } _
      · cases h
    · cases h
      exact Or.inl rfl
    · cases h
      exact Or.inr rfl
  · cases h
    exact Or.inl rfl

theorem readPart_holds {r : (TcpServerFSM δ × List TcpServerFSM.Call) × Bool}
    (h : f.readPart V sel o = some r) : Holds f r.1.1 := by
  unfold readPart at h
  split at h
  · split at h
    · split at h
      · cases h
      · cases h
        exact called_holds { f with recv_buf_ := _ } _
    · cases h
      exact Or.inr rfl
    · cases h
      exact Or.inl rfl
    · cases h
      exact Or.inr rfl
  · cases h
    exact Or.inl rfl

/-- two selections that say the same of the machine's descriptor still do -/
theorem Holds.agree {f' : TcpServerFSM δ} (h : Holds f f') (hs : Agree sel sel' f.socket)
    (h1 : Agree sel sel' (-1)) : Agree sel sel' f'.socket := by
  unfold TcpServerFSM.socket at hs ⊢
  rcases h with h | h
  · rw [h]
    exact hs
  · rw [h]
    exact h1

theorem afterReadWriteSelect_congr (hs : Agree sel sel' f.socket) (h1 : Agree sel sel' (-1)) :
    f.afterReadWriteSelect V sel o = f.afterReadWriteSelect V sel' o := by
  have hw : f.writePart V sel o = f.writePart V sel' o := by
    unfold writePart
    rw [hs.write]
  unfold afterReadWriteSelect
  rw [hs.exception, hw]
  split
  · rfl
  · cases hr : f.writePart V sel' o with
    | none => rfl
    | some r =>
      have hsr := (writePart_holds hr).agree hs h1
      have hread : r.1.1.readPart V sel o = r.1.1.readPart V sel' o := by
        unfold readPart
        rw [hsr.read]
      rw [Option.bind_some, Option.bind_some, hread]
      cases hq : r.1.1.readPart V sel' o with
      | none => rfl
      | some q =>
        have hsq := (readPart_holds hq).agree hsr h1
        have htime : q.1.1.timePart sel o = q.1.1.timePart sel' o := by
          unfold timePart
          rw [hsq.write, hsq.read]
        rw [Option.map_some, Option.map_some, htime]

/-- **A `TcpServerFSM` asks and looks for its own descriptor only.** -/
theorem server_local (V : Callbacks δ α) (rw : TcpServerFSM δ → Int) :
    Local (server V rw) fun s => s.fsm.socket where
  asks := fun s a => preSelect_asks s.fsm a
  looks := by
    intro s sel sel' o hs h1
    show (s.fsm.afterSelect V sel o).map _ = (s.fsm.afterSelect V sel' o).map _
    unfold afterSelect
    rw [afterReadWriteSelect_congr hs h1]

theorem alone_proper (hR : Ignores R) (cs : List SetCall) : (alone R cs).Proper :=
  ⟨answers_ignored hR (by decide) (by decide), answers_ignored hR (by decide) (by decide)⟩

theorem mapM_get {ι κ : Type} {g : ι → Option κ} {l : List ι} {l' : List κ}
    (h : l.mapM g = some l') {i : Nat} {b : κ} (hb : l'[i]? = some b) :
    ∃ a, l[i]? = some a ∧ g a = some b := by
  induction l generalizing l' i with
  | nil =>
    cases h
    cases hb
  | cons x l ih =>
    rw [List.mapM_cons] at h
    obtain ⟨y, hy, h⟩ := Option.bind_eq_some_iff.mp h
    obtain ⟨ys, hys, h⟩ := Option.bind_eq_some_iff.mp h
    cases h
    cases i with
    | zero =>
      cases hb
      exact ⟨x, rfl, hy⟩
    | succ i => exact ih hys hb

/-! ## many connections -/

/-- a round of the handler, or something done with one machine between the rounds -/
inductive Act (α : Type) where
  | round (_breaker : SocketBreaker) (_select_anyway : Bool) (os : List (α × Syscalls α)) (R : Reply)
      (r : Int)
  | own (i : Nat) (a : TcpServerFSM.Act α)

/-- the machines with what the outside answers them in a round -/
def withOs (ms : List (State δ)) (os : List (α × Syscalls α)) : List (State δ × α × Syscalls α) :=
  ms.zip os

def netStep (V : Callbacks δ α) (rw : TcpServerFSM δ → Int) (ms : List (State δ)) :
    Act α → Option (List (State δ))
  | .round _breaker anyway os R r =>
    if os.length = ms.length then
      (tcpFSMHandler (server V rw) _breaker anyway (withOs ms os) R r).map Round.machines
    else none
  | .own i a => (ms[i]?).bind fun m => (step V m a).map (ms.set i)

/-- the condition on a step: open descriptors are different, from the breaker's as well, `poll` knows
no negative ones, `AfterSelect` finds time left or its callbacks do not close, and each machine's own
step meets its condition -/
def NetCareful (V : Callbacks δ α) (rw : TcpServerFSM δ → Int) (ms : List (State δ)) : Act α → Prop
  | .round _breaker _ os R _ =>
    Ignores R ∧
      (((withOs ms os).map fun m => (asked (server V rw) m).fsm.socket).filter (0 ≤ ·)).Nodup ∧
      (∀ m ∈ withOs ms os, 0 ≤ (asked (server V rw) m).fsm.socket →
        (asked (server V rw) m).fsm.socket ≠ _breaker.pipes_.1) ∧
      ∀ o ∈ os, 0 < o.2.timeout ∨ Keeps V
  | .own i a => ∀ m, ms[i]? = some m → Careful V m a

/-- the callback for a new connection does not close it -/
def Accepts (V : Callbacks δ α) : Prop := ∀ a d, (V.onAccept a d).2 = none

/-- **One step of many connections is a run of each.** -/
theorem step_each (hV : Accepts V) {ms ms' : List (State δ)} {a : Act α} (hc : NetCareful V rw ms a)
    (h : netStep V rw ms a = some ms') {i : Nat} {m' : State δ} (hm' : ms'[i]? = some m') :
    ∃ m, ms[i]? = some m ∧ Run (step V) (Careful V) m m' := by
  cases a with
  | round _breaker anyway os R r =>
    obtain ⟨hR, hnd, hb, hos⟩ := hc
    change (if os.length = ms.length then _ else none) = some ms' at h
    split at h
    · obtain ⟨t, ht, rfl⟩ := Option.map_eq_some_iff.mp h
      have hpre : ∀ m : State δ × α × Syscalls α, Next (step V) (Careful V) m.1 (asked (server V rw) m) :=
        fun m => ⟨.preSelect m.2.1, fun _ => hV _ _, rfl⟩
      rcases round_cases ht with ⟨-, hms⟩ | ⟨-, sel, hsel, hms⟩
      · rw [hms, List.getElem?_map] at hm'
        obtain ⟨m, hm, rfl⟩ := Option.map_eq_some_iff.mp hm'
        refine ⟨m.1, ?_, Relation.ReflTransGen.single (hpre m)⟩
        exact (List.getElem?_zip_eq_some.mp hm).1
      · rw [mapM_alone (server_local V rw) hR hnd hb hsel] at hms
        obtain ⟨m, hm, hround⟩ := mapM_get hms hm'
        obtain ⟨h1, h2⟩ := List.getElem?_zip_eq_some.mp hm
        refine ⟨m.1, h1, (Relation.ReflTransGen.single (hpre m)).tail ?_⟩
        exact ⟨.afterSelect _ m.2.2, ⟨alone_proper hR _, hos _ (List.mem_of_getElem? h2)⟩, hround⟩
    · cases h
  | own j a =>
    obtain ⟨m, hm, h⟩ := Option.bind_eq_some_iff.mp h
    obtain ⟨m₁, hstep, rfl⟩ := Option.map_eq_some_iff.mp h
    by_cases hij : j = i
    · subst hij
      have hlt := (List.getElem?_eq_some_iff.mp hm).1
      rw [List.getElem?_set_self hlt] at hm'
      cases hm'
      exact ⟨m, hm, Run.one (hc m hm) hstep⟩
    · rw [List.getElem?_set_ne hij] at hm'
      exact ⟨m', hm', Relation.ReflTransGen.refl⟩

/-- **Along every run of many connections each goes along a run of its own.** -/
theorem run_each (hV : Accepts V) {ms ms' : List (State δ)}
    (h : Run (netStep V rw) (NetCareful V rw) ms ms') {i : Nat} {m' : State δ}
    (hm' : ms'[i]? = some m') : ∃ m, ms[i]? = some m ∧ Run (step V) (Careful V) m m' := by
  induction h generalizing m' with
  | refl => exact ⟨m', hm', Relation.ReflTransGen.refl⟩
  | tail _ hn ih =>
    obtain ⟨a, hc, ha⟩ := hn
    obtain ⟨m₁, h1, hrun⟩ := step_each hV hc ha hm'
    obtain ⟨m, h0, hrun0⟩ := ih h1
    exact ⟨m, h0, hrun0.trans hrun⟩

def accepted (ps : List (Nat × δ)) : List (State δ) := ps.map fun p => { fsm := new p.1 p.2 }

/-- **Any number of connections under one handler**, none closed by the callback for a new one
(`Accepts`), and as long as the steps meet `NetCareful`: each connection's calls are as `Shape` has
them, sends and receives, one close of its own descriptor and at most one notice, and its bytes stay
in order. -/
theorem net_run (hV : Accepts V) {ps : List (Nat × δ)} {ms : List (State δ)}
    (h : Run (netStep V rw) (NetCareful V rw) (accepted ps) ms) {i : Nat} {m : State δ}
    (hm : ms[i]? = some m) :
    ∃ fd own, ps[i]? = some (fd, own) ∧ Shape fd m.fsm m.log ∧
      (Orderly V → Stream (new fd own) m.fsm m.log) := by
  obtain ⟨m₀, h0, hrun⟩ := run_each hV h hm
  rw [accepted, List.getElem?_map] at h0
  obtain ⟨⟨fd, own⟩, hp, rfl⟩ := Option.map_eq_some_iff.mp h0
  refine ⟨fd, own, hp, ?_, fun hO => ?_⟩
  · exact hrun.keep (fun _ _ _ hs ha h => step_shape hs ha h) (Shape.new fd own)
  obtain ⟨calls, hlog, hst⟩ := hrun.keep (fun _ _ _ ht _ hs => ht.step hO hs) (StreamSince.refl _)
  rw [List.nil_append] at hlog
  rw [hlog]
  exact hst

end

/-! ## two connections, of which one has a byte to read -/

def readable7 : Reply := .ok fun fd _ => if fd = 7 then POLLIN else 0

theorem ignores_readable7 : Ignores readable7 := by
  intro K hK fd hfd events
  cases hK
  exact if_neg (by omega)

def twoOs : List (Unit × Syscalls Unit) :=
  [((), { onSend := (), recv := .data [5], onRecv := () }),
    ((), { onSend := (), recv := .data [6], onRecv := () })]

def two : List (State Unit) := accepted [(7, ()), (8, ())]

theorem handler_alone_two :
    ∃ t, tcpFSMHandler (server echo fun _ => INT_MAX) {} false (withOs two twoOs) readable7 0 = some t ∧
      (withOs two twoOs).mapM (roundAlone (server echo fun _ => INT_MAX) readable7) =
        some t.machines :=
  have hnd : (((withOs two twoOs).map fun m =>
      (asked (server echo fun _ => INT_MAX) m).fsm.socket).filter (0 ≤ ·)).Nodup := by decide
  ⟨_, rfl, ((handler_alone (server_local echo fun _ => INT_MAX) ignores_readable7 hnd (by decide)
    (rfl : tcpFSMHandler _ {} false _ _ 0 = _)).resolve_left fun h => by cases h.1).2⟩

theorem net_run_two :
    ∃ ms m, netStep echo (fun _ => INT_MAX) two (.round {} false twoOs readable7 0) = some ms ∧
      ms[0]? = some m ∧ ∃ fd own, [(7, ()), (8, ())][0]? = some (fd, own) ∧
        Shape fd m.fsm m.log ∧ (Orderly echo → Stream (new fd own) m.fsm m.log) :=
  have hnet := fun ms (h : netStep echo (fun _ => INT_MAX) (accepted [(7, ()), (8, ())])
      (.round {} false twoOs readable7 0) = some ms) m (hm : ms[0]? = some m) =>
    net_run (V := echo) (fun _ _ => rfl) (Run.one (a := .round {} false twoOs readable7 0)
      (C := NetCareful echo fun _ => INT_MAX)
      ⟨ignores_readable7, by decide, by decide, fun _ _ => Or.inr fun _ _ _ => ⟨rfl, rfl⟩⟩ h) hm
  ⟨_, _, rfl, rfl, hnet _ rfl _ rfl⟩

end

end TcpFSMHandler
