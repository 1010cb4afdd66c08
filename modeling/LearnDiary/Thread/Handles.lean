import LearnDiary.Thread.Reference
import LearnDiary.Lib.Runs
import Mathlib.Data.List.Nodup
import Mathlib.Data.List.Perm.Subperm

/-!
# The handles of a `Thread` (comm/unix/thread/thread.h)

A `Thread` that is joined from inside joins or detaches the pthreads it creates.  A step is a call
under `splock`, the `pthread_join` of a `join` that has released it, or the start or end of a run.

* `Inv.run`       as long as no `pthread_create` fails on a used `Thread`, each handle has one owner;
* `Broken.good`   after a failure some handle is given up twice, or never;
* `handles_iff`   when the handles are right.
-/

namespace Thread

structure Handles where
  r : RunnableReference := {}
  /-- the number of pthreads created, with the handles `1` to `created` -/
  created : Nat := 0
  /-- the handles joined and detached, the latest first -/
  released : List Nat := []
  /-- the calls of `join` before their `pthread_join` -/
  joining : Nat := 0
  destroyed : Bool := false
deriving DecidableEq

inductive Call where
  /-- a call of one of the `start`s, and whether `pthread_create` succeeds -/
  | start (k : Start) (ok : Bool)
  /-- `join` up to `pthread_join`, called by the thread `current` -/
  | join (current : Nat)
  /-- `pthread_join(tid(), 0)` of a `join` -/
  | pthread_join
  /-- `cancel_after` and `cancel_periodic` -/
  | cancel
  /-- the destructor -/
  | destroy
  /-- a run starts and ends -/
  | init
  | cleanup
deriving DecidableEq

namespace Handles

/-- a `start` of a `Thread` that is not running: what is left of the last pthread is detached, and
`pthread_create` succeeds -/
def creates (outside_join_ : Bool) (k : Start) (s : Handles) : Handles :=
  { s with
    r := k.apply outside_join_ (some (s.created + 1)) s.r
    created := s.created + 1
    released := s.r.detaches ++ s.released }

/-- the same where `pthread_create` fails -/
def fails (outside_join_ : Bool) (k : Start) (s : Handles) : Handles :=
  { s with r := k.apply outside_join_ none s.r, released := s.r.detaches ++ s.released }

/-- `join` up to `lock.unlock()` -/
def joins (s : Handles) : Handles :=
  { s with r := { s.r with isjoined := true }, joining := s.joining + 1 }

/-- `pthread_join(tid(), 0)` -/
def joined (s : Handles) : Handles :=
  { s with released := s.r.tid :: s.released, joining := s.joining - 1 }

def destroys (s : Handles) : Handles :=
  { s with
    r := { s.r with count := s.r.count - 1 }
    released := s.r.detaches ++ s.released
    destroyed := true }

end Handles

/-- a call; `join` is made where `ASSERT(!isjoined)` holds, and not on a destroyed `Thread` -/
def handle (outside_join_ : Bool) (s : Handles) : Call → Option Handles
  | .start k ok =>
    if s.destroyed then none
    else if s.r.isruning then some s
    else if ok then some (s.creates outside_join_ k)
    else some (s.fails outside_join_ k)
  | .join current =>
    if s.destroyed ∨ outside_join_ ∨ s.r.isjoined then none
    else if s.r.tid = current then some s
    else if s.r.isruning then some s.joins
    else some s
  | .pthread_join =>
    if s.joining = 0 then none
    else some s.joined
  | .cancel =>
    if s.destroyed then none
    else if !s.r.isruning then some s
    else some { s with r := { s.r with iscanceldelaystart := true, anyway_notify_ := true } }
  | .destroy =>
    if s.destroyed ∨ s.joining ≠ 0 then none
    else some s.destroys
  | .init => if s.r.isruning && !s.r.isinthread then some { s with r := s.r.init } else none
  | .cleanup => if s.r.isinthread then some { s with r := s.r.cleanup } else none

/-- no handle is joined or detached twice, or without having been created, and in the end each is -/
structure Good (s : Handles) : Prop where
  once : s.released.Nodup
  created : ∀ h ∈ s.released, 0 < h ∧ h ≤ s.created
  all : s.destroyed = true → ∀ h, 0 < h → h ≤ s.created → h ∈ s.released

/-- a `pthread_create` that fails does so before one has succeeded, and none succeeds between the
two halves of a `join` -/
def Sound (s : Handles) : Call → Prop
  | .start _ ok =>
    s.r.isruning = false → if ok then s.joining = 0 else s.r.tid = 0
  | _ => True

/-! ## the handles that are given up, and those that will be -/

/-- the handle that the next `start` or the destructor detaches -/
def Handles.flags (s : Handles) : List Nat := if s.destroyed then [] else s.r.detaches

def Handles.claims (s : Handles) : List Nat :=
  List.replicate s.joining s.r.tid ++ s.flags ++ s.released

/-- each handle is claimed once -/
structure Inv (s : Handles) : Prop where
  tid : s.r.tid = s.created
  claims : s.claims.Perm (List.range' 1 s.created)
  running : s.r.isended = false → 0 < s.created

/-- a handle is claimed twice, or one is not claimed and lost -/
def Broken (s : Handles) : Prop :=
  s.created < s.claims.length ∨ ∃ h, 0 < h ∧ h ≤ s.created ∧ h ≠ s.r.tid ∧ h ∉ s.released

section
variable {s s' : Handles} {r : RunnableReference} {c : Call} {k : Start} {created : Option Nat}

theorem detaches_of_tid (h : 0 ≠ r.tid) (hj : r.isjoined = false) : r.detaches = [r.tid] :=
  if_pos ⟨h, by rw [hj]; rfl⟩

theorem detaches_of_zero (h : r.tid = 0) : r.detaches = [] := if_neg (fun hn => hn.1 h.symm)

theorem detaches_of_joined (h : r.isjoined = true) : r.detaches = [] :=
  if_neg (fun hn => by rw [h] at hn; exact absurd hn.2 (by decide))

theorem mem_detaches {h : Nat} (hm : h ∈ r.detaches) : h = r.tid := by
  unfold RunnableReference.detaches at hm
  split at hm
  · exact List.mem_singleton.mp hm
  · cases hm

inductive Moves (s : Handles) : Call → Handles → Prop where
  /-- nothing that concerns the handles -/
  | keeps {c : Call} {s' : Handles} : s'.created = s.created → s'.r.tid = s.r.tid →
    s'.claims = s.claims → s'.released = s.released → s'.destroyed = s.destroyed →
    s'.joining = s.joining → (s'.r.isended = false → s.r.isended = false) → Moves s c s'
  | creates {k : Start} : s.destroyed = false → s.r.isruning = false →
    Moves s (.start k true) (s.creates false k)
  | fails {k : Start} : s.destroyed = false → s.r.isruning = false →
    Moves s (.start k false) (s.fails false k)
  | joins {current : Nat} : s.destroyed = false → s.r.isjoined = false → s.r.isended = false →
    Moves s (.join current) s.joins
  | joined : s.joining ≠ 0 → Moves s .pthread_join s.joined
  | destroys : s.destroyed = false → s.joining = 0 → Moves s .destroy s.destroys

theorem handle_moves (h : handle false s c = some s') : Moves s c s' := by
  cases c with
  | start k ok =>
    rw [handle] at h
    split at h
    · cases h
    · rename_i hd
      have hd := Bool.eq_false_iff.mpr hd
      split at h
      · cases h
        exact .keeps rfl rfl rfl rfl rfl rfl id
      · rename_i hr
        have hr := Bool.eq_false_iff.mpr hr
        cases ok with
        | true =>
          rw [if_pos rfl] at h
          cases h
          exact .creates hd hr
        | false =>
          rw [if_neg (by decide)] at h
          cases h
          exact .fails hd hr
  | join current =>
    rw [handle] at h
    split at h
    · cases h
    · rename_i hn
      rw [not_or, not_or, Bool.not_eq_true, Bool.not_eq_true] at hn
      split at h
      · cases h
        exact .keeps rfl rfl rfl rfl rfl rfl id
      · split at h
        · rename_i hr
          unfold RunnableReference.isruning at hr
          rw [Bool.not_eq_true'] at hr
          cases h
          exact .joins hn.1 (Bool.eq_false_iff.mpr hn.2.2) hr
        · cases h
          exact .keeps rfl rfl rfl rfl rfl rfl id
  | pthread_join =>
    rw [handle] at h
    split at h
    · cases h
    · rename_i hj
      cases h
      exact .joined hj
  | cancel =>
    rw [handle] at h
    split at h
    · cases h
    · split at h <;> cases h <;> exact .keeps rfl rfl rfl rfl rfl rfl id
  | destroy =>
    rw [handle] at h
    split at h
    · cases h
    · rename_i hn
      rw [not_or, not_not, Bool.not_eq_true] at hn
      cases h
      exact .destroys hn.1 hn.2
  | init =>
    rw [handle] at h
    split at h
    · cases h
      exact .keeps rfl rfl rfl rfl rfl rfl id
    · cases h
  | cleanup =>
    rw [handle] at h
    split at h
    · cases h
      exact .keeps rfl rfl rfl rfl rfl rfl nofun
    · cases h

theorem flags_of_live (h : s.destroyed = false) : s.flags = s.r.detaches :=
  if_neg (by rw [h]; decide)

theorem claims_of_live (h : s.destroyed = false) :
    s.claims = List.replicate s.joining s.r.tid ++ s.r.detaches ++ s.released := by
  rw [Handles.claims, flags_of_live h]

theorem claims_destroyed (h : s.destroyed = true) (hj : s.joining = 0) : s.claims = s.released := by
  rw [Handles.claims, hj, Handles.flags, if_pos h]
  rfl

/-! ## the claims after a call -/

theorem joins_claims (ht : 0 ≠ s.r.tid) (hd : s.destroyed = false) (hj : s.r.isjoined = false) :
    s.joins.claims.Perm s.claims := by
  rw [claims_of_live hd, claims_of_live (s := s.joins) hd, detaches_of_tid ht hj,
    detaches_of_joined (r := s.joins.r) rfl, List.append_nil]
  show (List.replicate (s.joining + 1) s.r.tid ++ s.released).Perm _
  rw [List.replicate_succ']

theorem joined_claims (hj : s.joining ≠ 0) : s.joined.claims.Perm s.claims := by
  obtain ⟨n, hn⟩ := Nat.exists_eq_succ_of_ne_zero hj
  show (List.replicate (s.joining - 1) s.r.tid ++ s.flags ++ s.r.tid :: s.released).Perm _
  rw [Handles.claims, hn]
  show (List.replicate n s.r.tid ++ s.flags ++ s.r.tid :: s.released).Perm
    (s.r.tid :: List.replicate n s.r.tid ++ s.flags ++ s.released)
  exact List.perm_middle

theorem destroys_claims (hd : s.destroyed = false) : s.destroys.claims = s.claims := by
  rw [claims_of_live hd]
  show List.replicate s.joining s.r.tid ++ [] ++ (s.r.detaches ++ s.released) = _
  rw [List.append_nil, List.append_assoc]

theorem creates_claims (hd : s.destroyed = false) : (s.creates false k).claims =
    List.replicate s.joining (s.created + 1) ++
      (s.created + 1) :: (s.r.detaches ++ s.released) := by
  have htid : (s.creates false k).r.tid = s.created + 1 := apply_tid_some
  rw [claims_of_live (s := s.creates false k) hd, detaches_of_tid (r := (s.creates false k).r)
    (by rw [htid]; omega) (apply_isjoined _), htid, List.append_assoc]
  rfl

theorem fails_claims (hd : s.destroyed = false) : (s.fails false k).claims =
    List.replicate s.joining s.r.tid ++
      ((if 0 ≠ s.r.tid then [s.r.tid] else []) ++ (s.r.detaches ++ s.released)) := by
  have htid : (s.fails false k).r.tid = s.r.tid := apply_tid_none
  have hdet : (s.fails false k).r.detaches = if 0 ≠ s.r.tid then [s.r.tid] else [] := by
    split
    · rename_i h
      rw [detaches_of_tid (r := (s.fails false k).r) (by rw [htid]; exact h) (apply_isjoined _),
        htid]
    · rename_i h
      exact detaches_of_zero (by rw [htid]; exact (not_not.mp h).symm)
  rw [claims_of_live (s := s.fails false k) hd, htid, hdet, List.append_assoc]
  rfl

/-! ## runs -/

/-- after the destructor no `join` is under way -/
def Settled (s : Handles) : Prop := s.destroyed = true → s.joining = 0

theorem Settled.moves (hs : Settled s) (h : Moves s c s') : Settled s' := by
  intro hd
  cases h with
  | keeps _ _ _ _ hde hj _ =>
    rw [hj]
    exact hs (hde ▸ hd)
  | creates hl =>
    change s.destroyed = true at hd
    rw [hl] at hd
    cases hd
  | fails hl =>
    change s.destroyed = true at hd
    rw [hl] at hd
    cases hd
  | joins hl =>
    change s.destroyed = true at hd
    rw [hl] at hd
    cases hd
  | joined hj => exact absurd (hs hd) hj
  | destroys _ hj => exact hj

theorem Inv.init : Inv {} := ⟨rfl, .refl _, nofun⟩

theorem Inv.moves (hi : Inv s) (hc : Sound s c) (h : handle false s c = some s') : Inv s' := by
  have hm := handle_moves h
  cases hm with
  | keeps hcr ht hcl _ _ _ hr =>
    refine ⟨by rw [ht, hcr, hi.tid], by rw [hcl, hcr]; exact hi.claims, fun h => ?_⟩
    rw [hcr]
    exact hi.running (hr h)
  | @creates k hd hr =>
    have hj : s.joining = 0 := hc hr
    refine ⟨apply_tid_some, ?_, fun _ => Nat.succ_pos _⟩
    have hold := hi.claims
    rw [claims_of_live hd, hj] at hold
    rw [creates_claims hd, hj]
    show ((s.created + 1) :: (s.r.detaches ++ s.released)).Perm (List.range' 1 (s.created + 1))
    rw [List.range'_concat, Nat.one_mul, Nat.add_comm 1]
    exact (hold.cons _).trans (List.perm_append_singleton _ _).symm
  | @fails k hd hr =>
    have ht : s.r.tid = 0 := hc hr
    refine ⟨apply_tid_none.trans hi.tid, ?_, fun h => ?_⟩
    · have hold := hi.claims
      rw [claims_of_live hd, List.append_assoc] at hold
      rw [fails_claims hd, if_neg (by rw [ht]; decide)]
      exact hold
    · have hended : (s.fails false k).r.isended = true := apply_isended_none
      rw [hended] at h
      cases h
  | joins hd hj hr =>
    refine ⟨hi.tid, ?_, hi.running⟩
    have ht : 0 ≠ s.r.tid := by
      have := hi.running hr
      rw [hi.tid]
      omega
    exact (joins_claims ht hd hj).trans hi.claims
  | joined hj => exact ⟨hi.tid, (joined_claims hj).trans hi.claims, hi.running⟩
  | destroys hd hj => exact ⟨hi.tid, destroys_claims hd ▸ hi.claims, hi.running⟩

theorem Inv.good (hi : Inv s) (hs : Settled s) : Good s := by
  have hsub : s.released.Sublist s.claims := List.sublist_append_right _ _
  have hnodup : s.claims.Nodup := hi.claims.nodup_iff.mpr List.nodup_range'
  have hmem : ∀ h, h ∈ s.claims ↔ 0 < h ∧ h ≤ s.created := by
    intro h
    rw [hi.claims.mem_iff, List.mem_range'_1]
    omega
  refine ⟨hnodup.sublist hsub, fun h hh => (hmem h).mp (hsub.subset hh), ?_⟩
  intro hd h h0 hle
  rw [← claims_destroyed hd (hs hd)]
  exact (hmem h).mpr ⟨h0, hle⟩

/-- **a handle claimed twice or lost stays so** -/
theorem Broken.moves (hb : Broken s) (h : Moves s c s') : Broken s' := by
  rcases hb with hb | ⟨x, h0, hle, hne, hnot⟩
  · left
    cases h with
    | keeps hcr _ hcl _ _ _ _ =>
      rw [hcr, hcl]
      exact hb
    | creates hd _ =>
      rw [claims_of_live hd] at hb
      rw [creates_claims hd]
      show s.created + 1 < _
      simp only [List.length_append, List.length_replicate, List.length_cons] at hb ⊢
      omega
    | fails hd _ =>
      rw [claims_of_live hd] at hb
      rw [fails_claims hd]
      show s.created < _
      simp only [List.length_append, List.length_replicate] at hb ⊢
      omega
    | joins hd hj _ =>
      by_cases ht : 0 = s.r.tid
      · rw [claims_of_live hd, detaches_of_zero ht.symm] at hb
        rw [claims_of_live (s := s.joins) hd]
        show s.created < (List.replicate (s.joining + 1) _ ++ _ ++ s.released).length
        simp only [List.length_append, List.length_replicate, List.length_nil] at hb ⊢
        omega
      · rw [(joins_claims ht hd hj).length_eq]
        exact hb
    | joined hj =>
      rw [(joined_claims hj).length_eq]
      exact hb
    | destroys hd _ =>
      rw [destroys_claims hd]
      exact hb
  · right
    have hdet : x ∉ s.r.detaches ++ s.released := by
      rw [List.mem_append]
      rintro (hx | hx)
      · exact hne (mem_detaches hx)
      · exact hnot hx
    cases h with
    | keeps hcr ht _ hrel _ _ _ => exact ⟨x, h0, hcr ▸ hle, ht ▸ hne, hrel ▸ hnot⟩
    | creates =>
      refine ⟨x, h0, Nat.le_succ_of_le hle, ?_, hdet⟩
      rw [Handles.creates, apply_tid_some]
      omega
    | fails =>
      refine ⟨x, h0, hle, ?_, hdet⟩
      rw [Handles.fails, apply_tid_none]
      exact hne
    | joins => exact ⟨x, h0, hle, hne, hnot⟩
    | joined =>
      refine ⟨x, h0, hle, hne, ?_⟩
      rw [Handles.joined, List.mem_cons, not_or]
      exact ⟨hne, hnot⟩
    | destroys => exact ⟨x, h0, hle, hne, hdet⟩

theorem Broken.good (hb : Broken s) (hs : Settled s) (hd : s.destroyed = true) : ¬ Good s := by
  intro hg
  rcases hb with hb | ⟨x, h0, hle, -, hnot⟩
  · rw [claims_destroyed hd (hs hd)] at hb
    have hsub : s.released ⊆ List.range' 1 s.created := by
      intro h hh
      rw [List.mem_range'_1]
      have := hg.created h hh
      omega
    have := (List.subperm_of_subset hg.once hsub).length_le
    rw [List.length_range'] at this
    omega
  · exact hnot (hg.all hd x h0 hle)

theorem Inv.broken (hi : Inv s) (hc : ¬ Sound s c) (h : handle false s c = some s') :
    Broken s' := by
  have hlen : s.claims.length = s.created := by
    rw [hi.claims.length_eq, List.length_range']
  cases c with
  | start k ok =>
    unfold Sound at hc
    push Not at hc
    obtain ⟨hr, hc⟩ := hc
    rw [handle] at h
    split at h
    · cases h
    · rename_i hd
      have hd := Bool.eq_false_iff.mpr hd
      rw [if_neg (by rw [hr]; decide)] at h
      cases ok with
      | true =>
        -- the `join` under way will join the new handle, the old one is lost
        have hj : s.joining ≠ 0 := hc
        rw [if_pos rfl] at h
        cases h
        right
        obtain ⟨n, hn⟩ := Nat.exists_eq_succ_of_ne_zero hj
        have hnodup : s.claims.Nodup := hi.claims.nodup_iff.mpr List.nodup_range'
        rw [claims_of_live hd, hn, List.replicate_succ] at hnodup
        have hnot := (List.nodup_cons.mp hnodup).1
        have hmem : s.r.tid ∈ s.claims := by
          rw [claims_of_live hd, hn, List.replicate_succ]
          exact List.mem_cons_self
        rw [hi.claims.mem_iff, List.mem_range'_1] at hmem
        refine ⟨s.r.tid, by omega, ?_, ?_, ?_⟩
        · show s.r.tid ≤ s.created + 1
          omega
        · rw [Handles.creates, apply_tid_some]
          omega
        · intro hx
          apply hnot
          show s.r.tid ∈ List.replicate n s.r.tid ++ s.r.detaches ++ s.released
          rw [List.append_assoc]
          exact List.mem_append_right _ hx
      | false =>
        -- the old handle will be detached once more
        have ht : 0 ≠ s.r.tid := Ne.symm hc
        rw [if_neg (by decide)] at h
        cases h
        left
        rw [claims_of_live hd] at hlen
        rw [fails_claims hd, if_pos ht]
        show s.created < _
        simp only [List.length_append, List.length_replicate, List.length_singleton] at hlen ⊢
        omega
  | _ => exact absurd trivial hc

theorem Settled.run (h : Runs.AnyRun (handle false) {} s) : Settled s :=
  h.keep (fun _ _ _ hs _ ha => hs.moves (handle_moves ha)) nofun

/-- **the invariant of every run whose calls are sound** -/
theorem Inv.run (h : Runs.Run (handle false) Sound {} s) : Inv s :=
  h.keep (fun _ _ _ hi hc ha => hi.moves hc ha) Inv.init

/-- an unsound call breaks the claims, for good -/
theorem Broken.run {t u : Handles} (hi : Inv t) (hc : ¬ Sound t c) (h : handle false t c = some u)
    (hrun : Runs.AnyRun (handle false) u s) : Broken s :=
  hrun.keep (fun _ _ _ hb _ ha => hb.moves (handle_moves ha)) (hi.broken hc h)

end

/-- **The handles of a `Thread`**, for every sequence of calls, run starts and run ends: when each
`pthread_create` that fails does so before one has succeeded, and none succeeds between the halves
of a `join`, every handle is joined or detached at most once, none that was not created, and each by
the time the `Thread` is destroyed; of a `Thread` that was destroyed only then. -/
theorem handles_iff {calls : List Call} {s : Handles}
    (h : Runs.exec (handle false) {} calls = some s) :
    ((∀ l₁ c l₂ t, calls = l₁ ++ c :: l₂ → Runs.exec (handle false) {} l₁ = some t → Sound t c) →
      Good s) ∧
    (s.destroyed = true → Good s →
      ∀ l₁ c l₂ t, calls = l₁ ++ c :: l₂ → Runs.exec (handle false) {} l₁ = some t →
        Sound t c) := by
  constructor
  · intro hs
    exact (Inv.run (Runs.Run.of_exec_at h hs)).good (Settled.run (.of_exec h))
  · intro hd hg
    -- the calls before the first unsound one keep the invariant
    have key : ∀ n l₁ c l₂ t, l₁.length = n → calls = l₁ ++ c :: l₂ →
        Runs.exec (handle false) {} l₁ = some t → Sound t c := by
      intro n
      induction n using Nat.strongRecOn with
      | ind n ih =>
        intro l₁ c l₂ t hn hl ht
        by_contra hc
        have hrun : Runs.Run (handle false) Sound {} t := by
          refine Runs.Run.of_exec_at ht ?_
          intro k₁ c' k₂ t' hk ht'
          refine ih k₁.length ?_ k₁ c' (k₂ ++ c :: l₂) t' rfl ?_ ht'
          · rw [← hn, hk, List.length_append, List.length_cons]
            omega
          · rw [hl, hk, List.append_assoc]
            rfl
        rw [hl] at h
        obtain ⟨t', u, ht', hu, hrest⟩ := Runs.exec_cons_some h
        cases ht'.symm.trans ht
        exact (Broken.run (Inv.run hrun) hc hu (.of_exec hrest)).good (Settled.run (.of_exec h)) hd hg
    exact fun l₁ c l₂ t hl ht => key l₁.length l₁ c l₂ t rfl hl ht

def joinedOnce : List Call :=
  [.start .start true, .init, .join 0, .cleanup, .pthread_join, .destroy]

theorem handles_iff_joined : ∃ s, s.released = [1] ∧ Good s := by
  have h : Runs.exec (handle false) {} joinedOnce = some _ := rfl
  refine ⟨_, rfl, (handles_iff h).1 ?_⟩
  intro l₁ c l₂ t hl ht
  cases c with
  | start k ok =>
    cases l₁ with
    | nil =>
      cases hl
      cases ht
      exact fun _ => rfl
    | cons a l₁ =>
      have hmem : Call.start k ok ∈ joinedOnce.tail := by
        rw [hl]
        exact List.mem_append_right _ List.mem_cons_self
      simp [joinedOnce] at hmem
  | _ => trivial

/-- **A handle detached twice**: the second `start` detaches the pthread of the first, its own
`pthread_create` fails, and the destructor detaches the same handle again -/
theorem detached_twice : ¬ ∀ s, Runs.AnyRun (handle false) {} s → Good s := by
  intro h
  have hrun : Runs.AnyRun (handle false) {} _ :=
    .of_exec (l := [.start .start true, .init, .cleanup, .start .start false, .destroy]) rfl
  exact absurd (h _ hrun).once (by decide)

end Thread
