import LearnDiary.MessageQueue.Creater

/-!
# What `MessageQueueCreater` returns, and whom it joins (comm/messagequeue/message_queue.cc)

* `Intact`, `Single`  the last queue, and the one caller that waits;
* `run_created`   what `CreateMessageQueue` returns is a queue that is not broken;
* `run_unjoined`  a call waits for the thread of its own queue, and no thread is joined twice.
-/

namespace MessageQueueCreater
open Runs
variable {κ : Type}

/-! ## what the thread of a queue does -/

/-- where it goes -/
inductive Goes (s : State κ) (n : Nat) : Loop → Loop → Prop
  | init : Goes s n .created .waiting
  | enter (h : s.messagequeue_mutex_ = none) : Goes s n .waiting .locked
  | leave : Goes s n .locked .entering
  | run (h : (s.breakflag n).isSome = true) : Goes s n .entering .running
  | fail (h : (s.breakflag n).isSome = false) : Goes s n .entering .failed
  | release (h : s.breakflag n = some true) : Goes s n .running .released
  | cleanup : Goes s n .released .ended

/-- what it changes, and what it leaves -/
structure Turned (s : State κ) (n : Nat) (s' : State κ) : Prop where
  goes : Goes s n (s.loops n) (s'.loops n)
  loops : ∀ m, m ≠ n → s'.loops m = s.loops m
  breakflag : ∀ m, s'.breakflag m = s.breakflag m ∨ (m = n ∧ s.breakflag n = some true)
  calls : s'.calls = s.calls
  created : s'.created = s.created
  id : s'.messagequeue_id_ = s.messagequeue_id_
  log : s'.log = s.log
  tid : s'.thread_.tid = s.thread_.tid
  isjoined : s'.thread_.isjoined = s.thread_.isjoined

section
variable {s s' : State κ} {n : Nat}

theorem Goes.update {l : Loop} (h : Goes s n (s.loops n) l) :
    Goes s n (s.loops n) (Function.update s.loops n l n) := by
  rw [Function.update_self]
  exact h

theorem loop_turned (hs : s.loop n = some s') : Turned s n s' := by
  have hne : ∀ {l : Loop} m, m ≠ n → Function.update s.loops n l m = s.loops m :=
    fun m hm => Function.update_of_ne hm ..
  cases loop_looped hs with
  | init hl => exact ⟨Goes.update (hl ▸ .init), hne, fun m => Or.inl rfl, rfl, rfl, rfl, rfl, rfl, rfl⟩
  | enter hl hm =>
    exact ⟨Goes.update (hl ▸ .enter hm), hne, fun m => Or.inl rfl, rfl, rfl, rfl, rfl, rfl, rfl⟩
  | leave hl =>
    exact ⟨Goes.update (hl ▸ .leave), hne, fun m => Or.inl rfl, rfl, rfl, rfl, rfl, rfl, rfl⟩
  | run hl hb =>
    exact ⟨Goes.update (hl ▸ .run hb), hne, fun m => Or.inl rfl, rfl, rfl, rfl, rfl, rfl, rfl⟩
  | fail hl hb =>
    exact ⟨Goes.update (hl ▸ .fail hb), hne, fun m => Or.inl rfl, rfl, rfl, rfl, rfl, rfl, rfl⟩
  | release hl hidle hb =>
    refine ⟨Goes.update (hl ▸ .release hb), hne, fun m => ?_, rfl, rfl, rfl, rfl, rfl, rfl⟩
    by_cases he : m = n
    · exact Or.inr ⟨he, hb⟩
    · exact Or.inl (Function.update_of_ne he ..)
  | cleanup hl =>
    exact ⟨Goes.update (hl ▸ .cleanup), hne, fun m => Or.inl rfl, rfl, rfl, rfl, rfl, rfl, rfl⟩

end

/-! ## what `CreateMessageQueue` returns -/

/-- nobody else breaks a queue -/
def Own (_ : State κ) (a : Act κ) : Prop := ∀ id, a ≠ .break_ id

/-- the last queue, before and after it is in the map -/
structure Intact (s : State κ) : Prop where
  fresh : ∀ n, s.created < n → s.breakflag n = none
  registering : ∀ t, s.calls t = .registering →
    s.breakflag s.created = none ∧ (s.loops s.created).early = true
  kept : s.messagequeue_id_ ≠ 0 → s.messagequeue_id_ = s.created ∧
    s.breakflag s.created = some false ∧
      ((s.loops s.created).early = true ∨ (s.loops s.created).served = true)

theorem Intact.init : Intact ({} : State κ) where
  fresh := fun _ _ => rfl
  registering := fun _ h => by cases h
  kept := fun h => absurd rfl h

theorem live_of_early {l : Loop} (h : l.early = true) : l.live = true := by
  cases l <;> first | rfl | cases h

theorem live_of_served {l : Loop} (h : l.served = true) : l.live = true := by
  cases l <;> first | rfl | cases h

section
variable {s s' : State κ} {t t' : Tid κ} {n m : Nat} {p : Pc}

theorem Held.unique (h : Held s) (t t' : Tid κ) (ht : (s.calls t).holds = true)
    (ht' : (s.calls t').holds = true) : t' = t :=
  Option.some.inj ((h.owner t' ht').symm.trans (h.owner t ht))

theorem Intact.of_same (h : Intact s) (hb : s'.breakflag = s.breakflag) (hl : s'.loops = s.loops)
    (hn : s'.created = s.created) (hid : s'.messagequeue_id_ = s.messagequeue_id_)
    (hr : ∀ t, s'.calls t = .registering → s.calls t = .registering) : Intact s' where
  fresh := by
    rw [hb, hn]
    exact h.fresh
  registering := by
    rw [hb, hn, hl]
    exact fun t ht => h.registering t (hr t ht)
  kept := by
    rw [hb, hn, hl, hid]
    exact h.kept

theorem Intact.turned (hi : Inv s) (h : Intact s) (ht : Turned s n s') : Intact s' where
  fresh := by
    intro m hm
    rw [ht.created] at hm
    rcases ht.breakflag m with hb | ⟨rfl, hb⟩
    · exact hb.trans (h.fresh m hm)
    · rw [h.fresh m hm] at hb
      cases hb
  registering := by
    intro t hreg
    rw [ht.calls] at hreg
    obtain ⟨hnone, hearly⟩ := h.registering t hreg
    rw [ht.created]
    constructor
    · rcases ht.breakflag s.created with hb | ⟨rfl, hb⟩
      · exact hb.trans hnone
      · rw [hnone] at hb
        cases hb
    · by_cases he : s.created = n
      · have hgoes := ht.goes
        rw [← he] at hgoes
        generalize s.loops s.created = l at hgoes hearly
        generalize s'.loops s.created = l' at hgoes
        cases hgoes with
        | init => rfl
        | enter hm =>
          -- the caller in front of `__CreateMessageQueueInfo` has the mutex
          have := hi.owner t (by rw [hreg]; rfl)
          rw [hm] at this
          cases this
        | leave | run | fail | release | cleanup => cases hearly
      · rw [ht.loops _ he]
        exact hearly
  kept := by
    intro hid
    rw [ht.id] at hid ⊢
    rw [ht.created]
    obtain ⟨hlast, hflag, hfit⟩ := h.kept hid
    refine ⟨hlast, ?_, ?_⟩
    · rcases ht.breakflag s.created with hb | ⟨rfl, hb⟩
      · exact hb.trans hflag
      · rw [hflag] at hb
        cases hb
    · by_cases he : s.created = n
      · have hgoes := ht.goes
        rw [← he] at hgoes
        generalize s.loops s.created = l at hgoes hfit
        generalize s'.loops s.created = l' at hgoes
        cases hgoes with
        | init => exact Or.inl rfl
        | enter | leave | run => exact Or.inr rfl
        | fail hb =>
          rw [hflag] at hb
          cases hb
        | release hb =>
          rw [hflag] at hb
          cases hb
        | cleanup => rcases hfit with hc | hc <;> cases hc
      · rw [ht.loops _ he]
        exact hfit

variable [DecidableEq κ]

theorem goto_registering (hp : p ≠ .registering) (h : (s.goto t p).calls t' = .registering) :
    s.calls t' = .registering := by
  by_cases he : t' = t
  · rw [he, goto_self] at h
    exact absurd h hp
  · rwa [goto_ne p he] at h

theorem Intact.went (hi : Inv s) (h : Intact s) (hw : Went s t s') : Intact s' := by
  cases hw with
  | lock p hm hp =>
    have hne : p ≠ .registering := by
      rcases hp with ⟨-, rfl⟩ | ⟨-, rfl⟩ <;> decide
    exact h.of_same rfl rfl rfl rfl fun t' ht' => goto_registering (s := s.lock t) hne ht'
  | running hpc hrun =>
    exact h.of_same rfl rfl rfl rfl fun t' ht' => goto_registering (s := s) (by decide) ht'
  | start hpc hrun =>
    have hloop : Function.update s.loops (s.created + 1) .created (s.created + 1) = .created :=
      Function.update_self ..
    refine ⟨fun n hn => h.fresh n (Nat.lt_of_succ_lt hn), fun t' _ => ?_, fun hid => ?_⟩
    · refine ⟨h.fresh _ (Nat.lt_succ_self _), ?_⟩
      exact (congrArg Loop.early hloop).trans rfl
    · -- the queue it has would be alive
      obtain ⟨-, -, hfit⟩ := h.kept hid
      have hlive := (hi.live s.created (hfit.elim live_of_early live_of_served)).2
      rw [hrun] at hlive
      cases hlive
  | fail hpc hrun =>
    exact h.of_same rfl rfl rfl rfl fun t' ht' => goto_registering (s := s) (by decide) ht'
  | register hpc =>
    obtain ⟨hnone, hearly⟩ := h.registering t hpc
    refine ⟨fun n hn => ?_, fun t' ht' => ?_, fun hid => ⟨hi.tid, ?_, Or.inl hearly⟩⟩
    · have hne : n ≠ s.thread_.tid := by
        rw [hi.tid]
        exact Nat.ne_of_gt hn
      exact (Function.update_of_ne hne ..).trans (h.fresh n hn)
    · have hreg := goto_registering (s := s) (by decide) ht'
      have he := hi.unique t t' (by rw [hpc]; rfl) (by rw [hreg]; rfl)
      subst he
      exact absurd ((goto_self s t' .idle).symm.trans ht') (by decide)
    · show Function.update s.breakflag s.thread_.tid _ s.created = some false
      rw [hi.tid, Function.update_self, hnone]
      rfl
  | nothing hpc hid =>
    exact h.of_same rfl rfl rfl rfl fun t' ht' => goto_registering (s := s) (by decide) ht'
  | broke hpc hid =>
    refine ⟨fun n hn => ?_, fun t' ht' => ?_, fun hid => absurd rfl hid⟩
    · have hb := breakRunloop_isSome s s.messagequeue_id_ n
      rw [h.fresh n hn] at hb
      exact Option.not_isSome_iff_eq_none.mp (Bool.eq_false_iff.mp hb)
    · have hreg := goto_registering (s := s) (fun hc => by cases hc) ht'
      have he := hi.unique t t' (by rw [hpc]; rfl) (by rw [hreg]; rfl)
      rw [he, hpc] at hreg
      cases hreg
  | test | tid =>
    exact h.of_same rfl rfl rfl rfl fun t' ht' => goto_registering (s := s) (fun hc => by cases hc) ht'
  | join =>
    exact h.of_same rfl rfl rfl rfl fun t' ht' => goto_registering (s := s) (fun hc => by cases hc) ht'
  | own | ended | joined =>
    exact h.of_same rfl rfl rfl rfl fun t' ht' => goto_registering (s := s) (by decide) ht'

theorem Intact.step {a : Act κ} (hi : Inv s) (h : Intact s) (ha : Own s a)
    (hs : step s a = some s') : Intact s' := by
  cases a with
  | create t | cancel t =>
    obtain ⟨-, -, rfl⟩ := call_some hs
    exact h.of_same rfl rfl rfl rfl fun t' ht' => goto_registering (by decide) ht'
  | go t ok => exact h.went hi (go_went hs)
  | loop n => exact h.turned hi (loop_turned hs)
  | break_ id => exact absurd rfl (ha id)

/-- `CreateMessageQueue` returns what it has stored, or 0 -/
theorem logged_created {a : Act κ} {id : Nat} (hs : step s a = some s')
    (hlog : s'.log = (t, .created id) :: s.log) : id = 0 ∨ id = s'.messagequeue_id_ := by
  cases a with
  | create t | cancel t =>
    obtain ⟨-, -, rfl⟩ := call_some hs
    exact absurd hlog.symm (List.cons_ne_self _ _)
  | go t ok =>
    cases go_went hs with
    | running | register =>
      cases hlog
      exact Or.inr rfl
    | fail =>
      cases hlog
      exact Or.inl rfl
    | lock | start | broke | test | join | tid => exact absurd hlog.symm (List.cons_ne_self _ _)
    | nothing | own | ended | joined => cases hlog
  | loop n =>
    rw [(loop_turned hs).log] at hlog
    exact absurd hlog.symm (List.cons_ne_self _ _)
  | break_ id =>
    cases hs
    exact absurd hlog.symm (List.cons_ne_self _ _)

/-- **What `CreateMessageQueue` returns**, where nobody else breaks a queue, is 0 or a queue in the
map that is not broken, and whose thread is alive. -/
theorem run_created {a : Act κ} {id : Nat} (h : Run step Own ({} : State κ) s)
    (ha : Own s a) (hs : step s a = some s')
    (hlog : s'.log = (t, .created id) :: s.log) :
    id = 0 ∨ (s'.loops id).live = true ∧ s'.breakflag id = some false := by
  have hrun : Run step Own ({} : State κ) s' := h.tail ⟨a, ha, hs⟩
  have hkeep : Inv s' ∧ Intact s' := hrun.keep (P := fun s => Inv s ∧ Intact s)
    (fun _ _ _ hp hc hs => ⟨step_inv hp.1 hs, hp.2.step hp.1 hc hs⟩) ⟨.init, .init⟩
  rcases logged_created hs hlog with h0 | hid
  · exact Or.inl h0
  · by_cases h0 : id = 0
    · exact Or.inl h0
    · obtain ⟨hlast, hflag, hfit⟩ := hkeep.2.kept (hid ▸ h0)
      rw [hid, hlast]
      exact Or.inr ⟨hfit.elim live_of_early live_of_served, hflag⟩

theorem run_created_once :
    ∃ s s', exec step ({} : State Unit) (serving.take 3) = some s ∧
      step s (.go (.client ()) true) = some s' ∧ (s'.loops 1).live = true ∧
      s'.breakflag 1 = some false :=
  ⟨_, _, rfl, rfl, (run_created (t := .client ()) (a := .go (.client ()) true)
    (Run.of_exec_all (l := serving.take 3) rfl (by simp [serving, Own])) (by simp [Own]) rfl
    rfl).resolve_left (by decide)⟩

end

/-! ## who is joined -/

/-- no thread is started between the `lock.unlock()` of a `CancelAndWait` and its return -/
def Apart (s : State κ) (a : Act κ) : Prop :=
  ∀ t, a = .go t true → s.calls t = .creating → s.thread_.isended = true →
    ∀ t', (s.calls t').broke = none

/-- one caller at most has broken a queue and waits for its thread -/
structure Single (s : State κ) : Prop where
  last : s.messagequeue_id_ ≠ 0 → s.messagequeue_id_ = s.created ∨ ∃ t, s.calls t = .registering
  id : s.messagequeue_id_ ≠ 0 → s.thread_.isjoined = false ∧ ∀ t, (s.calls t).broke = none
  registering : ∀ t, s.calls t = .registering →
    s.thread_.isjoined = false ∧ ∀ t', (s.calls t').broke = none
  one : ∀ t t' m m', (s.calls t).broke = some m → (s.calls t').broke = some m' → t' = t
  broken : ∀ t m, (s.calls t).broke = some m → m = s.created
  before : ∀ t m, s.calls t = .joinTest m ∨ s.calls t = .join m → s.thread_.isjoined = false
  joining : ∀ t m n, s.calls t = .joining m n → n = m

theorem Single.init : Single ({} : State κ) where
  last := fun h => absurd rfl h
  id := fun h => absurd rfl h
  registering := fun _ h => by cases h
  one := fun _ _ _ _ h => by cases h
  broken := fun _ _ h => by cases h
  before := fun _ _ h => by rcases h with h | h <;> cases h
  joining := fun _ _ _ h => by cases h

section
variable {s s' : State κ} {t t' : Tid κ} {n m : Nat} {p : Pc}

theorem Single.of_same (h : Single s) (hid : s'.messagequeue_id_ = s.messagequeue_id_)
    (hn : s'.created = s.created) (hc : s'.calls = s.calls)
    (hj : s'.thread_.isjoined = s.thread_.isjoined ∨ s'.thread_.isjoined = false) : Single s' where
  last := by
    rw [hid, hn, hc]
    exact h.last
  id := by
    rw [hid, hc]
    exact fun h0 => ⟨hj.elim (fun he => he.trans (h.id h0).1) fun he => he, (h.id h0).2⟩
  registering := by
    rw [hc]
    exact fun t ht => ⟨hj.elim (fun he => he.trans (h.registering t ht).1) fun he => he,
      (h.registering t ht).2⟩
  one := by
    rw [hc]
    exact h.one
  broken := by
    rw [hc, hn]
    exact h.broken
  before := by
    rw [hc]
    exact fun t m ht => hj.elim (fun he => he.trans (h.before t m ht)) fun he => he
  joining := by
    rw [hc]
    exact h.joining

theorem Single.of_none
    (hl : s.messagequeue_id_ ≠ 0 → s.messagequeue_id_ = s.created ∨ ∃ t, s.calls t = .registering)
    (hj : s.thread_.isjoined = false) (hc : ∀ t, (s.calls t).broke = none) : Single s := by
  have hquiet : ∀ t m, (s.calls t).broke ≠ some m := fun t m hm => by
    rw [hc t] at hm
    cases hm
  exact ⟨hl, fun _ => ⟨hj, hc⟩, fun _ _ => ⟨hj, hc⟩, fun t _ m _ ht => absurd ht (hquiet t m),
    fun t m hm => absurd hm (hquiet t m), fun _ _ _ => hj,
    fun t m _ hm => absurd (congrArg Pc.broke hm) (hquiet t m)⟩

variable [DecidableEq κ]

theorem goto_cases (s : State κ) (t t' : Tid κ) (p : Pc) :
    (t' = t ∧ (s.goto t p).calls t' = p) ∨ (t' ≠ t ∧ (s.goto t p).calls t' = s.calls t') := by
  by_cases he : t' = t
  · subst he
    exact Or.inl ⟨rfl, goto_self s t' p⟩
  · exact Or.inr ⟨he, goto_ne p he⟩

theorem goto_none (hp : p.broke = none) (h : ∀ t', (s.calls t').broke = none) (t t' : Tid κ) :
    ((s.goto t p).calls t').broke = none := by
  rcases goto_cases s t t' p with ⟨-, hc⟩ | ⟨-, hc⟩
  · rw [hc]
    exact hp
  · rw [hc]
    exact h t'

theorem Single.goto (h : Single s) (hpc : s.calls t ≠ .registering) (hp : p ≠ .registering)
    (hb : p.broke = none ∨ p.broke = (s.calls t).broke)
    (hbefore : ∀ m, p = .joinTest m ∨ p = .join m → s.thread_.isjoined = false)
    (hjoin : ∀ m n, p = .joining m n → n = m) : Single (s.goto t p) := by
  have hbroke : ∀ t' m, ((s.goto t p).calls t').broke = some m → (s.calls t').broke = some m := by
    intro t' m hm
    rcases goto_cases s t t' p with ⟨rfl, hc⟩ | ⟨-, hc⟩
    · rw [hc] at hm
      rcases hb with hb | hb
      · rw [hb] at hm
        cases hm
      · rwa [hb] at hm
    · rwa [hc] at hm
  have hnone : (∀ t', (s.calls t').broke = none) → ∀ t', ((s.goto t p).calls t').broke = none := by
    intro hall t'
    cases hq : ((s.goto t p).calls t').broke with
    | none => rfl
    | some m =>
      have := hbroke t' m hq
      rw [hall t'] at this
      cases this
  refine ⟨fun h0 => ?_, fun h0 => ⟨(h.id h0).1, hnone (h.id h0).2⟩, fun t' ht' => ?_,
    fun t₁ t₂ m₁ m₂ h₁ h₂ => h.one t₁ t₂ m₁ m₂ (hbroke t₁ m₁ h₁) (hbroke t₂ m₂ h₂),
    fun t' m hm => h.broken t' m (hbroke t' m hm), fun t' m ht' => ?_, fun t' m n ht' => ?_⟩
  · rcases h.last h0 with hl | ⟨t', ht'⟩
    · exact Or.inl hl
    · have hne : t' ≠ t := fun he => hpc (he ▸ ht')
      exact Or.inr ⟨t', (goto_ne p hne).trans ht'⟩
  · have hreg := h.registering t' (goto_registering hp ht')
    exact ⟨hreg.1, hnone hreg.2⟩
  · rcases goto_cases s t t' p with ⟨-, hc⟩ | ⟨-, hc⟩
    · rw [hc] at ht'
      exact hbefore m ht'
    · rw [hc] at ht'
      exact h.before t' m ht'
  · rcases goto_cases s t t' p with ⟨-, hc⟩ | ⟨-, hc⟩
    · rw [hc] at ht'
      exact hjoin m n ht'
    · rw [hc] at ht'
      exact h.joining t' m n ht'

theorem Single.goto_quiet (h : Single s) (hpc : s.calls t ≠ .registering) (hp : p ≠ .registering)
    (hb : p.broke = none) : Single (s.goto t p) :=
  h.goto hpc hp (Or.inl hb) (fun m hm => by rcases hm with rfl | rfl <;> cases hb)
    fun m n hm => by
      subst hm
      cases hb

theorem Single.broke (hi : Inv s) (h : Single s) (hpc : s.calls t = .cancelling)
    (hid : s.messagequeue_id_ ≠ 0) :
    Single (({ s.breakRunloop s.messagequeue_id_ with messagequeue_id_ := 0 }).unlock.goto t
      (.joinTest s.messagequeue_id_)) := by
  obtain ⟨hj, hnone⟩ := h.id hid
  have hreg : ∀ t', s.calls t' ≠ .registering := fun t' ht' => by
    have he := hi.unique t t' (by rw [hpc]; rfl) (by rw [ht']; rfl)
    rw [he, hpc] at ht'
    cases ht'
  have hlast : s.messagequeue_id_ = s.created :=
    (h.last hid).resolve_right fun hex => hex.elim hreg
  have hplace : ∀ t', ((s.goto t (.joinTest s.messagequeue_id_)).calls t').broke = none ∨
      (t' = t ∧ (s.goto t (.joinTest s.messagequeue_id_)).calls t' = .joinTest s.created) := by
    intro t'
    rcases goto_cases s t t' (.joinTest s.messagequeue_id_) with ⟨he, hc⟩ | ⟨-, hc⟩
    · exact Or.inr ⟨he, by rw [hc, hlast]⟩
    · exact Or.inl (by rw [hc]; exact hnone t')
  have hbroke : ∀ t' m, ((s.goto t (.joinTest s.messagequeue_id_)).calls t').broke = some m →
      t' = t ∧ m = s.created := by
    intro t' m hm
    rcases hplace t' with hc | ⟨he, hc⟩
    · rw [hc] at hm
      cases hm
    · rw [hc] at hm
      cases hm
      exact ⟨he, rfl⟩
  refine ⟨fun h0 => absurd rfl h0, fun h0 => absurd rfl h0, fun t' ht' => ?_,
    fun t₁ t₂ m₁ m₂ h₁ h₂ => (hbroke t₂ m₂ h₂).1.trans (hbroke t₁ m₁ h₁).1.symm,
    fun t' m hm => (hbroke t' m hm).2, fun _ _ _ => hj, fun t' m n ht' => ?_⟩
  · exact absurd (goto_registering (s := s) (fun hc => by cases hc) ht') (hreg t')
  · rcases hplace t' with hc | ⟨-, hc⟩
    · cases hc.symm.trans (congrArg Pc.broke ht')
    · cases hc.symm.trans ht'

theorem Single.join (h : Single s) (hpc : s.calls t = .join m) :
    Single (({ s with thread_ := { s.thread_ with isjoined := true } }).goto t (.joinTid m)) := by
  have h1 := h.goto (t := t) (p := .joinTid m) (by rw [hpc]; exact fun hc => by cases hc)
    (fun hc => by cases hc) (Or.inr (by rw [hpc]; rfl))
    (fun _ hm => by rcases hm with hm | hm <;> cases hm) fun _ _ hm => by cases hm
  have hself : ((s.goto t (.joinTid m)).calls t).broke = some m := by
    rw [goto_self]
    rfl
  have hno : ¬ ∀ t', ((s.goto t (.joinTid m)).calls t').broke = none := fun hall => by
    rw [hall t] at hself
    cases hself
  refine ⟨h1.last, fun h0 => absurd (h1.id h0).2 hno,
    fun t' ht' => absurd (h1.registering t' ht').2 hno, h1.one, h1.broken, fun t' m' ht' => ?_,
    h1.joining⟩
  have hb : ((s.goto t (.joinTid m)).calls t').broke = some m' := by
    rcases ht' with ht' | ht' <;> exact congrArg Pc.broke ht'
  have he := h1.one t t' m m' hself hb
  subst he
  rcases ht' with ht' | ht' <;> cases (goto_self s t' (.joinTid m)).symm.trans ht'

theorem Single.went (hi : Inv s) (h : Single s) (hw : Went s t s')
    (hc : s.calls t = .creating → s'.created ≠ s.created → ∀ t', (s.calls t').broke = none) :
    Single s' := by
  have hunlock : Single s.unlock := h.of_same rfl rfl rfl (Or.inl rfl)
  cases hw with
  | lock p hm hp =>
    have hpc : s.calls t ≠ .registering ∧ p ≠ .registering ∧ p.broke = none := by
      rcases hp with ⟨hq, rfl⟩ | ⟨hq, rfl⟩ <;> rw [hq] <;> decide
    have hlock : Single (s.lock t) := h.of_same rfl rfl rfl (Or.inl rfl)
    exact hlock.goto_quiet hpc.1 hpc.2.1 hpc.2.2
  | running hpc | nothing hpc =>
    have h0 := hunlock.goto_quiet (t := t) (p := .idle) (by rw [State.unlock, hpc]; decide)
      (by decide) rfl
    exact h0.of_same rfl rfl rfl (Or.inl rfl)
  | start hpc hrun =>
    exact .of_none (fun _ => Or.inr ⟨t, goto_self s t _⟩) rfl
      (goto_none (s := s) rfl (hc hpc (Nat.succ_ne_self _)) t)
  | fail hpc hrun =>
    have h0 : Single ({ s with thread_ := s.thread_.start false none }).unlock :=
      h.of_same rfl rfl rfl (Or.inr rfl)
    have h1 := h0.goto_quiet (t := t) (p := .idle) (by rw [State.unlock, hpc]; decide)
      (by decide) rfl
    exact h1.of_same rfl rfl rfl (Or.inl rfl)
  | register hpc =>
    obtain ⟨hj, hnone⟩ := h.registering t hpc
    exact .of_none (fun _ => Or.inl hi.tid) hj (goto_none (s := s) rfl hnone t)
  | broke hpc hid => exact h.broke hi hpc hid
  | test m hpc =>
    exact h.goto (by rw [hpc]; exact fun hq => by cases hq) (fun hq => by cases hq)
      (Or.inr (by rw [hpc]; rfl)) (fun _ _ => h.before t m (Or.inl hpc)) fun _ _ hm => by cases hm
  | join m hpc => exact h.join hpc
  | tid m hpc =>
    have hbroke : (s.calls t).broke = some m := by
      rw [hpc]
      rfl
    refine h.goto (by rw [hpc]; exact fun hq => by cases hq) (fun hq => by cases hq)
      (Or.inr (by rw [hbroke]; rfl)) (fun _ hm => by rcases hm with hm | hm <;> cases hm)
      fun m' n hm => ?_
    cases hm
    rw [hi.tid, h.broken t m hbroke]
  | own m hpc | ended m hpc | joined m n hpc =>
    have hne : s.calls t ≠ .registering := fun he => by
      rw [he] at hpc
      cases hpc
    exact (h.goto_quiet (p := .idle) hne (by decide) rfl).of_same rfl rfl rfl (Or.inl rfl)

theorem go_starts {ok : Bool} (hs : s.go t ok = some s') (hpc : s.calls t = .creating)
    (hn : s'.created ≠ s.created) : ok = true ∧ s.thread_.isended = true := by
  unfold State.go at hs
  rw [hpc] at hs
  dsimp only at hs
  split at hs
  · cases hs
    exact absurd rfl hn
  · rename_i hrun
    split at hs
    · rename_i hok
      exact ⟨hok, ended_of_not hrun⟩
    · cases hs
      exact absurd rfl hn

theorem Single.step {a : Act κ} (hi : Inv s) (h : Single s) (ha : Apart s a)
    (hs : step s a = some s') : Single s' := by
  cases a with
  | create t | cancel t =>
    obtain ⟨-, hidle, rfl⟩ := call_some hs
    exact h.goto_quiet (by rw [hidle]; decide) (by decide) rfl
  | go t ok =>
    refine h.went hi (go_went hs) fun hpc hn => ?_
    obtain ⟨rfl, hrun⟩ := go_starts hs hpc hn
    exact ha t rfl hpc hrun
  | loop n =>
    have ht := loop_turned hs
    exact h.of_same ht.id ht.created ht.calls (Or.inl ht.isjoined)
  | break_ id =>
    cases hs
    exact h.of_same rfl rfl rfl (Or.inl rfl)

/-- **No thread is joined twice**, where none is started while a `CancelAndWait` waits:
`ASSERT(!isjoined)` holds, and a call waits for the thread of the queue it broke. -/
theorem run_unjoined (h : Run step Apart ({} : State κ) s) :
    (∀ t m, s.calls t = .join m → s.thread_.isjoined = false) ∧
      ∀ t m n, s.calls t = .joining m n → n = m := by
  have hkeep : Inv s ∧ Single s := h.keep (P := fun s => Inv s ∧ Single s)
    (fun _ _ _ hp hc hs => ⟨step_inv hp.1 hs, hp.2.step hp.1 hc hs⟩) ⟨.init, .init⟩
  exact ⟨fun t m ht => hkeep.2.before t m (Or.inr ht), hkeep.2.joining⟩

/-- `c` makes all the calls -/
def By (c : Tid κ) (_ : State κ) : Act κ → Prop
  | .create t => t = c
  | .cancel t => t = c
  | .go t _ => t = c
  | .loop _ => True
  | .break_ _ => True

theorem went_calls (hw : Went s t s') (h : t' ≠ t) : s'.calls t' = s.calls t' := by
  cases hw <;> exact goto_ne _ h

theorem By.idle {c : Tid κ} {a : Act κ} (ha : By c s a) (hs : step s a = some s')
    (h : ∀ t, t ≠ c → s.calls t = .idle) (ht : t ≠ c) : s'.calls t = .idle := by
  refine Eq.trans ?_ (h t ht)
  cases a with
  | create t' | cancel t' =>
    obtain ⟨-, -, rfl⟩ := call_some hs
    exact goto_ne _ fun he => ht (he.trans ha)
  | go t' ok => exact went_calls (go_went hs) fun he => ht (he.trans ha)
  | loop n => rw [(loop_turned hs).calls]
  | break_ id =>
    cases hs
    rfl

/-- the calls of one thread are apart -/
theorem run_apart {c : Tid κ} (h : Run step (By c) ({} : State κ) s) :
    Run step Apart ({} : State κ) s := by
  refine (h.keep (P := fun s => Run step Apart {} s ∧ ∀ t, t ≠ c → s.calls t = .idle)
    (fun s a s' hp ha hs => ⟨hp.1.tail ⟨a, ?_, hs⟩, fun t ht => ha.idle hs hp.2 ht⟩)
    ⟨.refl, fun _ _ => rfl⟩).1
  rintro t rfl hpc - t'
  by_cases he : t' = c
  · rw [he, ← show t = c from ha, hpc]
    rfl
  · rw [hp.2 t' he]
    rfl

theorem run_unjoined_once :
    ∃ s, exec step ({} : State Unit) (serving ++ closing.take 4) = some s ∧
      s.calls (.client ()) = .join 1 ∧ s.thread_.isjoined = false :=
  ⟨_, rfl, rfl, (run_unjoined (run_apart (c := .client ()) (Run.of_exec_all
    (l := serving ++ closing.take 4) rfl (by simp [serving, closing, By])))).1 (.client ()) 1 rfl⟩

/-- the queue of `false` is started while `true` waits for the thread of its own -/
def late : List (Act Bool) :=
  [.create (.client true), .go (.client true) true, .go (.client true) true,
    .go (.client true) true, .loop 1, .loop 1, .loop 1, .loop 1,
    .cancel (.client true), .go (.client true) true, .go (.client true) true, .loop 1, .loop 1,
    .create (.client false), .go (.client false) true, .go (.client false) true,
    .go (.client false) true,
    .go (.client true) true, .go (.client true) true, .go (.client true) true]

-- it waits for the other thread
example : ((exec step ({} : State Bool) late).map fun s => s.calls (.client true)) =
    some (.joining 1 2) := rfl

end

end MessageQueueCreater
