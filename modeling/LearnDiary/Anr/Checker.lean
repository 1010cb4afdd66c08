import LearnDiary.Lib.Heap
import LearnDiary.Lib.Runs

/-!
# The ANR checker (comm/anr.cc)

The registered entries lie in a vector that `std::make_heap` and its companions keep as a heap with
the earliest `end_time` in front.  The checker thread waits until the front is due and reports it.
Once a round comes back too late it counts the processor's time instead of the clock's, for good,
and still looks at the front of the same heap.

* `Inv.run`        each pointer is registered once, the vector is a heap;
* `Ordered.run`    in processor time the entries that end earlier have less time left;
* `run_complete`   an entry over its budget has a round report one, as long as they have;
* `due_unseen`     a run in which they have not.
-/

namespace Anr

structure check_content where
  ptr : Nat
  timeout : Int
  start_time : Nat
  end_time : Nat
  used_cpu_time : Nat := 0
deriving DecidableEq

/-- `operator<` -/
def check_content.lt (a b : check_content) : Bool := decide (a.end_time > b.end_time)

inductive Checker where
  | idle
  /-- in the wait, with the readings from the start of the round -/
  | waiting (round_tick_start use_cpu_time_1 : Nat) (wait_timeout : Int)
  | ended
deriving DecidableEq

structure State where
  sg_check_heap : List check_content := []
  iOS_style : Bool := false
  sg_exit : Bool := false
  checker : Checker := .idle
  /-- the calls of `GetSignalCheckHit`, the latest first -/
  hits : List (Bool × check_content) := []
deriving DecidableEq

def kEachRoundSleepTime : Int := 15 * 1000
def kTimeDeviation : Int := 500

abbrev Heap := List check_content

section
variable (std : StdHeap check_content.lt)

def unregister_anr_impl (_ptr : Nat) (heap : Heap) : Heap :=
  if heap.any (fun it => it.ptr == _ptr) then
    std.makeHeap (heap.eraseP (fun it => it.ptr == _ptr))
  else heap

/-- the entry of a registration at the time `start_time` -/
def content (_ptr : Nat) (_timeout : Int) (start_time : Nat) : check_content :=
  { ptr := _ptr, timeout := _timeout, start_time := start_time,
    end_time := start_time + _timeout.toNat }

def register_anr (_ptr : Nat) (_timeout : Int) (start_time : Nat) (heap : Heap) : Heap :=
  let heap := unregister_anr_impl std _ptr heap
  if 0 ≥ _timeout then heap else std.pushHeap (heap ++ [content _ptr _timeout start_time])

/-- the processor's time that is left to an entry -/
def check_content.cpuLeft (e : check_content) : Int := e.timeout - e.used_cpu_time

/-- how long the checker waits with `front` in front -/
def waitTimeout (iOS_style : Bool) (front : check_content) (clock : Nat) : Int :=
  let wait_timeout := if iOS_style then front.cpuLeft else front.end_time - clock
  min (max wait_timeout 0) kEachRoundSleepTime

/-- the time a round used, added to an entry -/
def check_content.age (use_cpu_time_1 use_cpu_time_2 : Nat) (e : check_content) : check_content :=
  if use_cpu_time_2 ≥ use_cpu_time_1 then
    { e with used_cpu_time := e.used_cpu_time + (use_cpu_time_2 - use_cpu_time_1) }
  else e

def check_content.exceeded (iOS_style : Bool) (now : Nat) (e : check_content) : Bool :=
  if iOS_style then e.timeout ≤ e.used_cpu_time else e.end_time ≤ now

/-- the wait of a round ran out and the round took too long -/
def late (round_tick_start : Nat) (wait_timeout : Int) (timedOut : Bool) (clock : Nat) : Bool :=
  (wait_timeout > 0 && timedOut) &&
    (clock : Int) - round_tick_start > wait_timeout + kTimeDeviation

inductive Action where
  | register (_ptr : Nat) (_timeout : Int) (start_time : Nat)
  | unregister (_ptr : Nat)
  /-- the round up to the wait: the clock is read at its start and for the wait -/
  | begin (clock cpu now : Nat)
  /-- the round after the wait: it ran out or not, the clock, the processor's time and the clock
  again -/
  | check (timedOut : Bool) (clock cpu now : Nat)
  | exit

def round (s : State) (round_tick_start use_cpu_time_1 : Nat) (wait_timeout : Int)
    (timedOut : Bool) (clock cpu now : Nat) : Option State :=
  let late := late round_tick_start wait_timeout timedOut clock
  -- the warning about a late round reads the front
  if late && s.sg_check_heap.isEmpty then none
  else
    let iOS_style := s.iOS_style || late
    let heap := s.sg_check_heap.map (check_content.age use_cpu_time_1 cpu)
    let s := { s with iOS_style := iOS_style, sg_check_heap := heap, checker := .idle }
    match heap with
    | [] => some s
    | front :: _ =>
      if front.exceeded iOS_style now then
        some { s with
          hits := (iOS_style, front) :: s.hits, sg_check_heap := (std.popHeap heap).dropLast }
      else some s

def step (s : State) : Action → Option State
  | .register _ptr _timeout start_time =>
    some { s with
      sg_check_heap := register_anr std _ptr _timeout start_time s.sg_check_heap }
  | .unregister _ptr =>
    some { s with sg_check_heap := unregister_anr_impl std _ptr s.sg_check_heap }
  | .begin clock cpu now =>
    match s.checker with
    | .idle =>
      if s.sg_exit then some { s with checker := .ended }
      else
        let wait_timeout := match s.sg_check_heap with
          | [] => 0
          | front :: _ => waitTimeout s.iOS_style front now
        some { s with checker := .waiting clock cpu wait_timeout }
    | _ => none
  | .check timedOut clock cpu now =>
    match s.checker with
    | .waiting round_tick_start use_cpu_time_1 wait_timeout =>
      round std s round_tick_start use_cpu_time_1 wait_timeout timedOut clock cpu now
    | _ => none
  | .exit => some { s with sg_exit := true }

end

/-! ## what is due first -/

/-- what is left to an entry under the mode: the order in which the entries are due -/
def check_content.due (iOS_style : Bool) (e : check_content) : Int :=
  if iOS_style then e.cpuLeft else e.end_time

/-- the front entry is one that is due first -/
def FrontDue (iOS_style : Bool) (heap : Heap) : Prop :=
  ∀ front ∈ heap.head?, ∀ e ∈ heap, front.due iOS_style ≤ e.due iOS_style

/-- of two entries the one that ends earlier has no more of the processor's time left -/
def Alike (e f : check_content) : Prop :=
  (e.end_time ≤ f.end_time → e.cpuLeft ≤ f.cpuLeft) ∧
    (f.end_time ≤ e.end_time → f.cpuLeft ≤ e.cpuLeft)

/-- the entries are due in the same order by the clock and by the processor's time -/
def Ranked (heap : Heap) : Prop := ∀ e ∈ heap, ∀ f ∈ heap, Alike e f

/-- what is asked of an action once processor time counts: a new entry ranks alike with those that
are registered, and so do those that are registered when the mode changes -/
def Agrees (s : State) : Action → Prop
  | .register _ptr _timeout start_time =>
    s.iOS_style = true → 0 < _timeout →
      ∀ e ∈ s.sg_check_heap, e.ptr ≠ _ptr → Alike e (content _ptr _timeout start_time)
  | .check timedOut clock _ _ =>
    match s.checker with
    | .waiting round_tick_start _ wait_timeout =>
      s.iOS_style = false → late round_tick_start wait_timeout timedOut clock = true →
        Ranked s.sg_check_heap
    | _ => True
  | _ => True

/-- the entries at the check of the round that is under way -/
def State.aged (s : State) (cpu : Nat) : Heap :=
  match s.checker with
  | .waiting _ use_cpu_time_1 _ => s.sg_check_heap.map (check_content.age use_cpu_time_1 cpu)
  | _ => s.sg_check_heap

/-- if an entry has exceeded its budget at the check, the round reports one that has -/
def Complete (s s' : State) (cpu now : Nat) : Prop :=
  (∃ e ∈ s.aged cpu, e.exceeded s'.iOS_style now = true) →
    ∃ r ∈ s.aged cpu, r.exceeded s'.iOS_style now = true ∧ s'.hits = (s'.iOS_style, r) :: s.hits

/-! ## the heap under the operations -/

section
variable {std : StdHeap check_content.lt} {heap l : Heap} {e f : check_content} {b : Bool}
  {p now cpu₁ cpu₂ : Nat}

theorem lt_eq_false : e.lt f = false ↔ e.end_time ≤ f.end_time := by
  unfold check_content.lt
  rw [decide_eq_false_iff_not]
  exact Nat.not_lt

theorem eraseP_eq_filter (h : (l.map check_content.ptr).Nodup) :
    l.eraseP (fun it => it.ptr == p) = l.filter (fun it => it.ptr != p) := by
  induction l with
  | nil => rfl
  | cons a l ih =>
    rw [List.map_cons, List.nodup_cons] at h
    by_cases ha : a.ptr = p
    · have hl : ∀ x ∈ l, (x.ptr != p) = true := by
        intro x hx
        have hne : x.ptr ≠ p := fun he => h.1 (List.mem_map.mpr ⟨x, hx, he.trans ha.symm⟩)
        simpa using hne
      rw [List.eraseP_cons_of_pos (by simpa using ha), List.filter_cons_of_neg (by simpa using ha),
        List.filter_eq_self.mpr hl]
    · rw [List.eraseP_cons_of_neg (by simpa using ha), List.filter_cons_of_pos (by simpa using ha),
        ih h.2]

theorem unregister_perm (h : (heap.map check_content.ptr).Nodup) :
    (unregister_anr_impl std p heap).Perm (heap.filter (fun it => it.ptr != p)) := by
  unfold unregister_anr_impl
  split
  · rw [← eraseP_eq_filter h]
    exact std.make_perm _
  · rename_i hany
    rw [← eraseP_eq_filter h, List.eraseP_of_forall_not]
    intro x hx hp
    exact hany (List.any_eq_true.mpr ⟨x, hx, hp⟩)

theorem unregister_isHeap (h : IsHeap check_content.lt heap) :
    IsHeap check_content.lt (unregister_anr_impl std p heap) := by
  unfold unregister_anr_impl
  split
  · exact std.make_isHeap _
  · exact h

theorem register_perm (h : (heap.map check_content.ptr).Nodup) (timeout : Int) (t : Nat) :
    (register_anr std p timeout t heap).Perm (if 0 ≥ timeout then
      heap.filter (fun it => it.ptr != p)
      else content p timeout t :: heap.filter (fun it => it.ptr != p)) := by
  unfold register_anr
  dsimp only
  split
  · exact unregister_perm h
  · exact (std.push_perm _).trans
      ((List.perm_append_singleton _ _).trans ((unregister_perm h).cons _))

theorem register_isHeap (h : IsHeap check_content.lt heap) (timeout : Int) (t : Nat) :
    IsHeap check_content.lt (register_anr std p timeout t heap) := by
  unfold register_anr
  dsimp only
  split
  · exact unregister_isHeap h
  · exact (push_back std (unregister_isHeap h) _).2

theorem age_ptr (e : check_content) : (e.age cpu₁ cpu₂).ptr = e.ptr := by
  unfold check_content.age
  split <;> rfl

theorem age_end_time (e : check_content) : (e.age cpu₁ cpu₂).end_time = e.end_time := by
  unfold check_content.age
  split <;> rfl

theorem age_cpuLeft (e : check_content) :
    (e.age cpu₁ cpu₂).cpuLeft = e.cpuLeft - ((cpu₂ - cpu₁ : Nat) : Int) := by
  unfold check_content.age check_content.cpuLeft
  by_cases h : cpu₂ ≥ cpu₁
  · rw [if_pos h]
    dsimp only
    omega
  · rw [if_neg h]
    omega

theorem alike_age (h : Alike e f) : Alike (e.age cpu₁ cpu₂) (f.age cpu₁ cpu₂) := by
  unfold Alike at h ⊢
  rw [age_end_time, age_end_time, age_cpuLeft, age_cpuLeft]
  omega

theorem isHeap_age (h : IsHeap check_content.lt heap) :
    IsHeap check_content.lt (heap.map (check_content.age cpu₁ cpu₂)) := by
  apply IsHeap.map _ h
  intro a b
  unfold check_content.lt
  rw [age_end_time, age_end_time]

theorem map_ptr_age : (heap.map (check_content.age cpu₁ cpu₂)).map check_content.ptr =
    heap.map check_content.ptr := by
  rw [List.map_map]
  exact List.map_congr_left (fun e _ => age_ptr e)

theorem Ranked.subset (h : Ranked heap) (hl : ∀ e ∈ l, e ∈ heap) : Ranked l :=
  fun e he f hf => h e (hl e he) f (hl f hf)

theorem Ranked.age (h : Ranked heap) : Ranked (heap.map (check_content.age cpu₁ cpu₂)) := by
  intro _ hx _ hy
  obtain ⟨e, he, rfl⟩ := List.mem_map.mp hx
  obtain ⟨f, hf, rfl⟩ := List.mem_map.mp hy
  exact alike_age (h e he f hf)

theorem alike_symm (h : Alike e f) : Alike f e := ⟨h.2, h.1⟩

theorem Ranked.cons (h : Ranked l) (hn : ∀ e ∈ l, Alike e f) : Ranked (f :: l) := by
  intro a ha b hb
  rcases List.mem_cons.mp ha with ha | ha <;> rcases List.mem_cons.mp hb with hb | hb
  · rw [ha, hb]
    exact ⟨fun _ => Int.le_refl _, fun _ => Int.le_refl _⟩
  · rw [ha]
    exact alike_symm (hn b hb)
  · rw [hb]
    exact hn a ha
  · exact h a ha b hb

/-! ## what is in front -/

theorem front_end_time (h : IsHeap check_content.lt (f :: l)) (he : e ∈ f :: l) :
    f.end_time ≤ e.end_time := by
  apply lt_eq_false.mp
  apply h.front _ _ he
  · intro a
    exact lt_eq_false.mpr (Nat.le_refl _)
  · intro a b c hab hbc
    exact lt_eq_false.mpr (Nat.le_trans (lt_eq_false.mp hab) (lt_eq_false.mp hbc))

theorem frontDue (h : IsHeap check_content.lt heap) (hr : b = true → Ranked heap) :
    FrontDue b heap := by
  intro f hf e he
  cases heap with
  | nil => nomatch he
  | cons a l =>
    obtain rfl : a = f := Option.some.inj hf
    have hend := front_end_time h he
    unfold check_content.due
    split
    · rename_i hb
      exact (hr hb a List.mem_cons_self e he).1 hend
    · omega

/-- what is due no later has exceeded its budget too -/
theorem exceeded_of_due (h : f.due b ≤ e.due b) (he : e.exceeded b now = true) :
    f.exceeded b now = true := by
  cases b with
  | false =>
    have he : e.end_time ≤ now := of_decide_eq_true he
    have h : (f.end_time : Int) ≤ e.end_time := h
    exact decide_eq_true (by omega : f.end_time ≤ now)
  | true =>
    have he : e.timeout ≤ e.used_cpu_time := of_decide_eq_true he
    have h : f.timeout - (f.used_cpu_time : Int) ≤ e.timeout - (e.used_cpu_time : Int) := h
    exact decide_eq_true (by omega : f.timeout ≤ f.used_cpu_time)

end

/-! ## runs -/

section
variable {std : StdHeap check_content.lt} {s s' : State}

structure Inv (s : State) : Prop where
  isHeap : IsHeap check_content.lt s.sg_check_heap
  nodup : (s.sg_check_heap.map check_content.ptr).Nodup

theorem round_cases {round_tick_start cpu₁ clock cpu now : Nat} {wait_timeout : Int}
    {timedOut : Bool}
    (h : round std s round_tick_start cpu₁ wait_timeout timedOut clock cpu now = some s') :
    s'.iOS_style = (s.iOS_style || late round_tick_start wait_timeout timedOut clock) ∧
    ((s'.sg_check_heap = s.sg_check_heap.map (check_content.age cpu₁ cpu) ∧
        ∀ front ∈ s'.sg_check_heap.head?, front.exceeded s'.iOS_style now = false) ∨
      ∃ front l, s.sg_check_heap.map (check_content.age cpu₁ cpu) = front :: l ∧
        front.exceeded s'.iOS_style now = true ∧
        s'.hits = (s'.iOS_style, front) :: s.hits ∧
        s'.sg_check_heap = (std.popHeap (front :: l)).dropLast) := by
  unfold round at h
  dsimp only at h
  split at h
  · cases h
  · split at h
    · rename_i hl
      cases h
      refine ⟨rfl, .inl ⟨rfl, ?_⟩⟩
      intro front hf
      dsimp only at hf
      rw [hl] at hf
      cases hf
    · rename_i front l hl
      split at h
      · rename_i hex
        cases h
        refine ⟨rfl, .inr ⟨front, l, hl, hex, rfl, ?_⟩⟩
        dsimp only
        rw [hl]
      · rename_i hex
        cases h
        refine ⟨rfl, .inl ⟨rfl, ?_⟩⟩
        intro front' hf
        dsimp only at hf
        rw [hl] at hf
        cases hf
        exact Bool.eq_false_iff.mpr hex

theorem round_mem {round_tick_start cpu₁ clock cpu now : Nat} {wait_timeout : Int}
    {timedOut : Bool} (hi : Inv s)
    (h : round std s round_tick_start cpu₁ wait_timeout timedOut clock cpu now = some s') :
    Inv s' ∧ ∀ e ∈ s'.sg_check_heap,
      e ∈ s.sg_check_heap.map (check_content.age cpu₁ cpu) := by
  have hheap : IsHeap check_content.lt (s.sg_check_heap.map (check_content.age cpu₁ cpu)) :=
    isHeap_age hi.isHeap
  have hnodup : ((s.sg_check_heap.map (check_content.age cpu₁ cpu)).map check_content.ptr).Nodup := by
    rw [map_ptr_age]
    exact hi.nodup
  rcases (round_cases h).2 with ⟨hs, -⟩ | ⟨front, l, hl, -, -, hs⟩
  · refine ⟨⟨?_, ?_⟩, ?_⟩
    · rw [hs]
      exact hheap
    · rw [hs]
      exact hnodup
    · rw [hs]
      exact fun _ he => he
  · rw [hl] at hheap hnodup ⊢
    obtain ⟨hperm, hpop⟩ := pop_back std hheap
    rw [← hs] at hperm hpop
    rw [List.map_cons, List.nodup_cons] at hnodup
    refine ⟨⟨hpop, (hperm.map _).nodup_iff.mpr hnodup.2⟩, ?_⟩
    intro e he
    exact List.mem_cons_of_mem _ (hperm.mem_iff.mp he)

theorem mem_filter_ptr {heap : Heap} {p : Nat} {e : check_content} :
    e ∈ heap.filter (fun it => it.ptr != p) ↔ e ∈ heap ∧ e.ptr ≠ p := by
  rw [List.mem_filter, bne_iff_ne]

theorem nodup_filter {heap : Heap} (p : Nat) (h : (heap.map check_content.ptr).Nodup) :
    ((heap.filter (fun it => it.ptr != p)).map check_content.ptr).Nodup :=
  h.sublist (List.filter_sublist.map _)

theorem register_nodup {heap : Heap} {p : Nat} (h : (heap.map check_content.ptr).Nodup)
    (timeout : Int) (t : Nat) :
    ((register_anr std p timeout t heap).map check_content.ptr).Nodup := by
  rw [((register_perm h timeout t).map _).nodup_iff]
  split
  · exact nodup_filter p h
  · rw [List.map_cons, List.nodup_cons]
    refine ⟨?_, nodup_filter p h⟩
    intro hp
    obtain ⟨e, he, hep⟩ := List.mem_map.mp hp
    exact (mem_filter_ptr.mp he).2 hep

theorem Inv.step (hi : Inv s) {a : Action} (h : step std s a = some s') : Inv s' := by
  cases a with
  | register p timeout t =>
    cases h
    exact ⟨register_isHeap hi.isHeap _ _, register_nodup hi.nodup _ _⟩
  | unregister p =>
    cases h
    refine ⟨unregister_isHeap hi.isHeap, ?_⟩
    exact ((unregister_perm hi.nodup).map _).nodup_iff.mpr (nodup_filter p hi.nodup)
  | begin clock cpu now =>
    rw [Anr.step] at h
    split at h
    · split at h
      · cases h
        exact ⟨hi.isHeap, hi.nodup⟩
      · cases h
        exact ⟨hi.isHeap, hi.nodup⟩
    · cases h
  | check timedOut clock cpu now =>
    rw [Anr.step] at h
    split at h
    · exact (round_mem hi h).1
    · cases h
  | exit =>
    cases h
    exact ⟨hi.isHeap, hi.nodup⟩

/-- **the invariant holds in every run** -/
theorem Inv.run (h : Runs.AnyRun (Anr.step std) {} s) : Inv s :=
  h.keep (fun _ _ _ hi _ hs => hi.step hs) ⟨isHeap_nil _, List.nodup_nil⟩

def Ordered (s : State) : Prop := s.iOS_style = true → Ranked s.sg_check_heap

/-- the entries of a round rank alike under the mode that it ends with -/
theorem ranked_round {round_tick_start cpu₁ clock cpu now : Nat} {wait_timeout : Int}
    {timedOut : Bool} (ho : Ordered s) (hs : s.checker = .waiting round_tick_start cpu₁ wait_timeout)
    (ha : Agrees s (.check timedOut clock cpu now))
    (h : round std s round_tick_start cpu₁ wait_timeout timedOut clock cpu now = some s')
    (hm : s'.iOS_style = true) : Ranked (s.sg_check_heap.map (check_content.age cpu₁ cpu)) := by
  apply Ranked.age
  rw [(round_cases h).1, Bool.or_eq_true] at hm
  cases hst : s.iOS_style with
  | true => exact ho hst
  | false =>
    rw [Agrees, hs] at ha
    rcases hm with hm | hm
    · rw [hst] at hm
      cases hm
    · exact ha hst hm

theorem Ordered.step (hi : Inv s) (ho : Ordered s) {a : Action} (ha : Agrees s a)
    (h : step std s a = some s') : Ordered s' := by
  cases a with
  | register p timeout t =>
    cases h
    intro hm
    have hold : Ranked (s.sg_check_heap.filter (fun it => it.ptr != p)) :=
      (ho hm).subset (fun e he => (mem_filter_ptr.mp he).1)
    refine Ranked.subset ?_ (fun e he => (register_perm hi.nodup timeout t).mem_iff.mp he)
    split
    · exact hold
    · rename_i ht
      apply hold.cons
      intro e he
      rw [mem_filter_ptr] at he
      exact ha hm (Int.not_le.mp ht) e he.1 he.2
  | unregister p =>
    cases h
    intro hm
    apply (ho hm).subset
    intro e he
    exact (mem_filter_ptr.mp ((unregister_perm hi.nodup).mem_iff.mp he)).1
  | begin clock cpu now =>
    rw [Anr.step] at h
    split at h
    · split at h
      · cases h
        exact ho
      · cases h
        exact ho
    · cases h
  | check timedOut clock cpu now =>
    rw [Anr.step] at h
    split at h
    · rename_i hs
      intro hm
      exact (ranked_round ho hs ha h hm).subset (round_mem hi h).2
    · cases h
  | exit =>
    cases h
    exact ho

theorem Ordered.run (h : Runs.Run (Anr.step std) Agrees {} s) : Inv s ∧ Ordered s :=
  h.keep (P := fun s => Inv s ∧ Ordered s) (fun _ _ _ hp ha hs =>
    ⟨hp.1.step hs, hp.2.step hp.1 ha hs⟩) ⟨⟨isHeap_nil _, List.nodup_nil⟩, fun hm => nomatch hm⟩

theorem complete_step (hi : Inv s) (ho : Ordered s) {timedOut : Bool} {clock cpu now : Nat}
    (ha : Agrees s (.check timedOut clock cpu now))
    (h : step std s (.check timedOut clock cpu now) = some s') : Complete s s' cpu now := by
  rintro ⟨e, he, hex⟩
  rw [Anr.step] at h
  split at h
  · rename_i round_tick_start cpu₁ wait_timeout hs
    rw [State.aged, hs] at he ⊢
    dsimp only at he ⊢
    have hdue := frontDue (isHeap_age hi.isHeap) (fun hm => ranked_round ho hs ha h hm)
    rcases (round_cases h).2 with ⟨hheap, hnone⟩ | ⟨front, l, hl, hf, hhits, -⟩
    · -- the front was not due, then nothing was
      rw [hheap] at hnone
      cases hl : s.sg_check_heap.map (check_content.age cpu₁ cpu) with
      | nil =>
        rw [hl] at he
        cases he
      | cons front l =>
        have hfront := exceeded_of_due (hdue front (by rw [hl]; rfl) e he) hex
        rw [hnone front (by rw [hl]; rfl)] at hfront
        cases hfront
    · refine ⟨front, ?_, hf, hhits⟩
      rw [hl]
      exact List.mem_cons_self
  · cases h

/-- **The checker is complete**: in every run each pointer is registered at most once, and as long
as the entries rank alike where processor time counts, the front entry is one that is due first and
a round at whose check an entry has exceeded its budget reports one that has. -/
theorem run_complete (std : StdHeap check_content.lt) :
    (∀ s, Runs.AnyRun (step std) {} s → (s.sg_check_heap.map check_content.ptr).Nodup) ∧
    ∀ s, Runs.Run (step std) Agrees {} s →
      FrontDue s.iOS_style s.sg_check_heap ∧
      ∀ timedOut clock cpu now s', Agrees s (.check timedOut clock cpu now) →
        step std s (.check timedOut clock cpu now) = some s' → Complete s s' cpu now := by
  constructor
  · intro s h
    exact (Inv.run h).nodup
  · intro s h
    obtain ⟨hi, ho⟩ := Ordered.run h
    refine ⟨frontDue hi.isHeap ho, ?_⟩
    intro timedOut clock cpu now s' ha hs
    exact complete_step hi ho ha hs

/-- the operations by sorting, the earliest `end_time` in front -/
def stdHeap : StdHeap check_content.lt := StdHeap.ofKey check_content.end_time

def worn : check_content :=
  { ptr := 1, timeout := 20000, start_time := 0, end_time := 20000, used_cpu_time := 19000 }

def lateState : State where
  sg_check_heap := [worn]
  iOS_style := true

theorem lateState_run : Runs.Run (step stdHeap) Agrees {} lateState := by
  have hwait : Runs.Run (step stdHeap) Agrees {}
      { sg_check_heap := [content 1 20000 0], checker := .waiting 0 0 15000 } :=
    (Runs.Run.one (a := .register 1 20000 0) nofun rfl).tail ⟨.begin 0 0 0, trivial, rfl⟩
  refine hwait.tail ⟨.check true 16000 19000 16000, ?_, rfl⟩
  intro _ _ e he f hf
  rw [List.mem_singleton.mp he, List.mem_singleton.mp hf]
  exact ⟨fun _ => Int.le_refl _, fun _ => Int.le_refl _⟩

/-- the next round reports the entry -/
theorem run_complete_hit : ∃ s', s'.hits.map (fun hit => hit.2.ptr) = [1] ∧
    Complete { lateState with checker := .waiting 16000 19000 1000 } s' 20500 36000 := by
  have hrun := lateState_run.tail ⟨.begin 16000 19000 16000, trivial, rfl⟩
  refine ⟨_, ?_, ((run_complete stdHeap).2 _ hrun).2 false 36000 20500 36000 _ nofun rfl⟩
  rfl

/-- **A round misses an entry**: the entry 1 has used up its 20 s, the entry 2 in front of it ends
earlier and has not, and nothing is reported. -/
theorem due_unseen : ∃ s s', Runs.AnyRun (step stdHeap) {} s ∧
    step stdHeap s (.check false 17600 20500 17600) = some s' ∧
    ¬ Complete s s' 20500 17600 ∧ ¬ FrontDue s.iOS_style s.sg_check_heap := by
  have hrun := (lateState_run.any.tail ⟨.register 2 3000 16000, trivial, rfl⟩).tail
    ⟨.begin 16000 19000 16000, trivial, rfl⟩
  refine ⟨_, _, hrun, rfl, ?_, ?_⟩
  · intro h
    have hmem : worn ∈ (register_anr stdHeap 2 3000 16000 [worn]) := by decide
    obtain ⟨r, -, -, hr⟩ := h ⟨worn.age 19000 20500, List.mem_map_of_mem hmem, by decide⟩
    cases hr
  · intro h
    exact absurd (h _ rfl _ (List.mem_cons_of_mem _ List.mem_cons_self)) (by decide)

end

end Anr
