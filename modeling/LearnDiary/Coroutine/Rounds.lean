import LearnDiary.Coroutine.Multiplexing
import Mathlib.Data.List.Flatten
import Mathlib.Data.List.Infix
import Mathlib.Data.List.Perm.Basic

/-!
# The rounds of `Multiplexing`

* `SocketPoll.consign_fresh`   a poll with new descriptors is consigned;
* `SocketPoll.report_done`     `ConsignReport` says yes to what is ready, failed or overdue;
* `Inv.effect`                 what a round has collected, and what came in meanwhile;
* `rounds`                     the tasks, in every run.
-/

namespace SocketPoll

section
variable {s s' c c' : SocketPoll} {e0 : PollFd} {es : List PollFd} {fd : Int}

theorem clearEvent_fds (h : s.clearEvent = some s') (hfd : s.fds.head? = some fd) :
    s'.fds = [fd] := by
  unfold clearEvent at h
  split at h
  · cases h
  · rename_i e l he
    cases h
    unfold fds at hfd ⊢
    rw [he] at hfd
    cases hfd
    rfl

theorem clearEvent_breaker (h : s.clearEvent = some s') :
    s'.breaker_ = s.breaker_ ∧ s'.autoclear_ = s.autoclear_ := by
  unfold clearEvent at h
  split at h
  · cases h
  · cases h
    exact ⟨rfl, rfl⟩

theorem find_eq_end (h : fd ∉ s.fds) : s.find fd = s.events_.length := by
  by_contra hne
  obtain ⟨e, he, hfd⟩ := find_at hne
  exact h (List.mem_map.mpr ⟨e, List.mem_of_getElem? he, hfd⟩)

theorem consign_breaker {ok : Bool} (h : s.consign c false = some (s', ok)) :
    s'.breaker_ = s.breaker_ ∧ s'.autoclear_ = s.autoclear_ := by
  obtain ⟨e0, -, h⟩ := Option.map_eq_some_iff.mp h
  rw [if_neg Bool.false_ne_true] at h
  split at h
  · cases h
    exact ⟨rfl, rfl⟩
  · cases h
    exact ⟨rfl, rfl⟩

theorem consign_fresh {ok : Bool} (h : s.consign c false = some (s', ok))
    (hc : ∀ fd ∈ c.fds, fd ∉ s.fds) : s'.fds = s.fds ++ c.fds := by
  obtain ⟨e0, he0, h⟩ := Option.map_eq_some_iff.mp h
  have hmem : e0.fd ∈ c.fds := List.mem_map.mpr ⟨e0, List.mem_of_mem_head? he0, rfl⟩
  rw [if_neg Bool.false_ne_true, if_neg (not_not_intro (find_eq_end (hc _ hmem)))] at h
  cases h
  exact List.map_append

theorem autoclear_false (h : s.autoclear_ = false) (r : Int) : s.autoclear r = s := by
  unfold autoclear
  rw [h]
  exact if_neg Bool.false_ne_true

theorem autoclear_breaker (h : s.autoclear_ = false) (r : Int) :
    (s.autoclear r).breaker_ = s.breaker_ := by
  rw [autoclear_false h]

theorem poll_breaker {o : PollOutcome} {r : Int} (h : s.poll o r = some s')
    (ha : s.autoclear_ = false) : s'.breaker_ = s.breaker_ := by
  unfold poll at h
  dsimp only at h
  split at h
  · cases h
  · cases o with
    | error errno =>
      cases h
      apply autoclear_breaker
      exact ha
    | ready rs =>
      dsimp only at h
      split at h
      · cases h
        apply autoclear_breaker
        exact ha
      · cases h

theorem waits_spec {o : PollOutcome} (h : s.waits o = some s') :
    s'.fds = s.fds ∧ s'.breaker_ = s.breaker_ ∧ s'.autoclear_ = s.autoclear_ := by
  obtain ⟨p, hp, rfl⟩ := Option.map_eq_some_iff.mp h
  have hfds := poll_fds hp
  have hbreaker := poll_breaker hp rfl
  exact ⟨hfds, hbreaker, rfl⟩

theorem poll_eq_waits (s : SocketPoll) (o : PollOutcome) (r : Int) :
    s.poll o r = (s.waits o).map (autoclear · r) := by
  unfold waits poll
  dsimp only
  by_cases hnil : s.events_.map (PollFd.put · 0) = []
  · rw [if_pos hnil, if_pos hnil]
    rfl
  · rw [if_neg hnil, if_neg hnil]
    cases o with
    | error errno =>
      rfl
    | ready rs =>
      dsimp only
      by_cases hlen : rs.length = (s.events_.map (PollFd.put · 0)).length
      · rw [if_pos hlen, if_pos hlen]
        rfl
      · rw [if_neg hlen, if_neg hlen]
        rfl

theorem report_absent (he : c.events_ = e0 :: es) (h0 : e0.fd ∉ s.fds) (timeout r : Int) :
    s.consignReport c timeout r = some (c, false) := by
  unfold consignReport
  rw [he]
  dsimp only [List.head?_cons]
  rw [if_pos (find_eq_end h0)]

/-- what the walk counts is an entry of its part of the host's that is ready -/
theorem report_count {fd0 : Int} {fs is : List PollFd} {t : Report}
    (h : reportLoop fd0 fs is = some t) (ht : 0 < t.count) :
    ∃ f ∈ fs.take is.length, f.revents ≠ 0 := by
  induction is generalizing fs t with
  | nil =>
    unfold reportLoop at h
    cases h
    cases ht
  | cons i is ih =>
    cases fs with
    | nil =>
      unfold reportLoop at h
      cases h
    | cons f fs =>
      by_cases hf : f.revents = 0
      · unfold reportLoop at h
        rw [if_neg (not_not_intro hf)] at h
        obtain ⟨t', ht', rfl⟩ := Option.map_eq_some_iff.mp h
        obtain ⟨g, hg, hne⟩ := ih ht' ht
        exact ⟨g, List.mem_cons_of_mem f hg, hne⟩
      · exact ⟨f, List.mem_cons_self, hf⟩

theorem settle_done {timeout r : Int} {t : Report} (h : s.settle c timeout r t = (c', true)) :
    s.ret_ < 0 ∨ 0 < t.count ∨ timeout ≤ 0 := by
  unfold settle at h
  dsimp only at h
  split_ifs at h with h₁ h₂ h₃
  · exact .inl h₁
  · exact .inr (.inl h₂)
  · exact .inr (.inr h₃)
  · cases h

/-- **`ConsignReport` says yes only where the poll failed, one of the consignor's descriptors is
ready, or the time is over** -/
theorem report_done {pre post : List Int} {timeout r : Int} (he : c.events_ = e0 :: es)
    (hfds : s.fds = pre ++ c.fds ++ post) (hpre : e0.fd ∉ pre)
    (h : s.consignReport c timeout r = some (c', true)) :
    s.ret_ < 0 ∨ (∃ e ∈ s.events_, e.fd ∈ c.fds ∧ e.revents ≠ 0) ∨ timeout ≤ 0 := by
  have hcf : c.fds = e0.fd :: es.map PollFd.fd := by
    unfold fds
    rw [he]
    rfl
  have hfind : s.find e0.fd = pre.length := by
    rw [find_fds, hfds, List.append_assoc, List.findIdx_append, if_neg, hcf, List.cons_append,
      List.findIdx_cons, beq_self_eq_true]
    · exact Nat.zero_add _
    · intro hlt
      exact hpre (beq_iff_eq.mp (List.findIdx_getElem (w := hlt)) ▸ List.getElem_mem hlt)
  have hlen : s.events_.length = s.fds.length := (List.length_map _).symm
  have hne : pre.length ≠ s.events_.length := by
    rw [hlen, hfds, hcf, List.length_append, List.length_append, List.length_cons]
    omega
  unfold consignReport at h
  rw [he] at h
  dsimp only [List.head?_cons] at h
  rw [hfind, if_neg hne] at h
  obtain ⟨t, ht, hset⟩ := Option.map_eq_some_iff.mp h
  rcases settle_done hset with hret | hcount | htime
  · exact .inl hret
  · obtain ⟨f, hf, hrev⟩ := report_count ht hcount
    refine .inr (.inl ⟨f, List.mem_of_mem_drop (List.mem_of_mem_take hf), ?_, hrev⟩)
    have hmap : ((s.events_.drop pre.length).take (e0 :: es).length).map PollFd.fd = c.fds := by
      rw [List.map_take, List.map_drop]
      show (s.fds.drop pre.length).take _ = c.fds
      rw [hfds, List.append_assoc, List.drop_left, hcf]
      exact List.take_left' (by rw [List.length_cons, List.length_cons, List.length_map])
    rw [← hmap]
    exact List.mem_map.mpr ⟨f, hf, rfl⟩
  · exact .inr (.inr htime)

end
end SocketPoll

namespace Coroutine.Multiplexing
open Runs

def State.consigned (s : State) : List TaskInfo := s.collected.map Prod.fst

/-- the poll is for its breaker and for the tasks of the round -/
def State.Hosts (s : State) : Prop := s.poll_.fds = s.fd :: s.consigned.flatMap TaskInfo.fds

/-- behind the tasks of the round are those that came in since it began -/
def State.Since (s : State) (new : List TaskInfo) : Prop :=
  s.tasks_ = s.consigned ++ new ∧ ∀ t ∈ new, s.round ≤ t.since

/-- the time-out is no longer than what is left to the tasks -/
def Fits (timeout : Int) (l : List (TaskInfo × Int)) : Prop :=
  ∀ x ∈ l, x.1.isValid = true → 0 ≤ timeout ∧ timeout ≤ max 0 x.2

structure Host (s : State) : Prop where
  auto : s.poll_.autoclear_ = true
  wakes : s.poll_.breaker_.Wakes
  pipe : s.poll_.breaker_.unread.isSome = true
  head : s.poll_.fds.head? = some s.fd

structure Tasks (s : State) : Prop where
  distinct : (s.fd :: s.tasks_.flatMap TaskInfo.fds).Nodup
  first : ∀ t ∈ s.tasks_, t.fds ≠ []
  deadline : ∀ t ∈ s.tasks_, t.abs_timeout_ ≤ s.clock + 2147483647
  ids : (s.tasks_.map TaskInfo.id ++ s.resumed.map TaskInfo.id).Perm (List.range s.added)
  since : ∀ t ∈ s.tasks_, t.since ≤ s.round

/-- what holds in a round that is so far -/
def State.Phase (s : State) : Pc → Prop
  | .idle => True
  | .before _ => s.poll_.fds = [s.fd] ∧ s.collected = []
  | .collect k _timeout =>
    s.adding = false ∧ s.Hosts ∧ s.consigned = s.tasks_.take k ∧ Fits _timeout s.collected
  | .poll msec =>
    s.Hosts ∧ Fits msec s.collected ∧
      ∃ new, s.Since new ∧ (new ≠ [] → s.poll_.breaker_.broken_ = true ∨ s.adding = true)
  | .clear | .after => s.Hosts ∧ ∃ new, s.Since new
  | .report k =>
    s.adding = false ∧ s.Hosts ∧ ∃ new passed kept rest, s.tasks_ = kept ++ rest ∧ kept.length = k ∧
      s.consigned ++ new = passed ++ rest ∧
      (s.fd :: (s.consigned ++ new).flatMap TaskInfo.fds).Nodup

structure Inv (s : State) : Prop where
  host : Host s
  tasks : Tasks s
  phase : s.Phase s.pc

section
variable {s s' : State} {a : Act} {t : TaskInfo} {k : Nat}

/-! ## the poll -/

theorem break_pipes (b : SocketBreaker) (ret : Int) : (b.break_ ret).1.pipes_ = b.pipes_ := by
  unfold SocketBreaker.break_
  split
  · rfl
  · rfl

theorem clear_pipes (b : SocketBreaker) (ret : Int) : (b.clear ret).1.pipes_ = b.pipes_ := by
  unfold SocketBreaker.clear
  split
  · rfl
  · rfl

theorem autoclear_fd (p : SocketPoll) (ret : Int) : (p.autoclear ret).breakerFD = p.breakerFD := by
  unfold SocketPoll.autoclear
  split
  · exact congrArg Prod.fst (clear_pipes _ _)
  · rfl

theorem effect_fd (he : Effect s a s') : s'.fd = s.fd := by
  cases he with
  | adds => rfl
  | pokes => exact congrArg Prod.fst (break_pipes _ _)
  | clears => exact congrArg Prod.fst (clear_pipes _ _)
  | begins _ hp => exact congrArg (fun b => b.pipes_.1) (SocketPoll.clearEvent_breaker hp).1
  | locks => rfl
  | collects _ _ hp => exact congrArg (fun b => b.pipes_.1) (SocketPoll.consign_breaker hp).1
  | collected => rfl
  | polls _ hp => exact congrArg (fun b => b.pipes_.1) (SocketPoll.waits_spec hp).2.1
  | cleared => exact autoclear_fd _ _
  | turns => rfl
  | resumes => rfl
  | keeps => rfl
  | ends => rfl
  | ticks => rfl

theorem Host.same (hh : Host s) (hp : s'.poll_ = s.poll_) : Host s' := by
  have hfd : s'.fd = s.fd := congrArg SocketPoll.breakerFD hp
  refine ⟨?_, ?_, ?_, ?_⟩
  · rw [hp]
    exact hh.auto
  · rw [hp]
    exact hh.wakes
  · rw [hp]
    exact hh.pipe
  · rw [hp, hfd]
    exact hh.head

theorem Host.entries (hh : Host s) (hb : s'.poll_.breaker_ = s.poll_.breaker_)
    (ha : s'.poll_.autoclear_ = s.poll_.autoclear_) (hfds : s'.poll_.fds.head? = s.poll_.fds.head?) :
    Host s' := by
  have hfd : s'.fd = s.fd := congrArg (fun b => b.pipes_.1) hb
  refine ⟨?_, ?_, ?_, ?_⟩
  · rw [ha]
    exact hh.auto
  · rw [hb]
    exact hh.wakes
  · rw [hb]
    exact hh.pipe
  · rw [hfds, hfd]
    exact hh.head

theorem Host.clear (hh : Host s) (ret : Int) : Host (s.clear ret) := by
  refine ⟨hh.auto, SocketBreaker.clear_wakes hh.wakes ret, SocketBreaker.clear_pipe hh.pipe ret, ?_⟩
  show s.poll_.fds.head? = some (s.poll_.breaker_.clear ret).1.pipes_.1
  rw [clear_pipes]
  exact hh.head

theorem Host.effect (hh : Host s) (he : Effect s a s') : Host s' := by
  cases he with
  | adds => exact hh.same rfl
  | pokes =>
    refine ⟨hh.auto, SocketBreaker.break_wakes hh.wakes 1, SocketBreaker.break_pipe hh.pipe 1, ?_⟩
    show s.poll_.fds.head? = some (s.poll_.breaker_.break_ 1).1.pipes_.1
    rw [break_pipes]
    exact hh.head
  | clears => exact hh.clear _
  | begins _ hp =>
    obtain ⟨hb, ha⟩ := SocketPoll.clearEvent_breaker hp
    refine hh.entries hb ha ?_
    exact (congrArg List.head? (SocketPoll.clearEvent_fds hp hh.head)).trans hh.head.symm
  | locks => exact hh.same rfl
  | @collects _ _ _ t p _ _ _ hp =>
    obtain ⟨hb, ha⟩ := SocketPoll.consign_breaker hp
    obtain ⟨ps, hps⟩ := SocketPoll.consign_events hp
    have hfds : p.fds = s.poll_.fds ++ ps.map PollFd.fd := by
      unfold SocketPoll.fds
      rw [hps, List.map_append]
    refine hh.entries hb ha ?_
    show p.fds.head? = s.poll_.fds.head?
    rw [hfds, List.head?_append, hh.head]
    rfl
  | collected => exact hh.same rfl
  | polls _ hp =>
    obtain ⟨hfds, hb, ha⟩ := SocketPoll.waits_spec hp
    exact hh.entries hb ha (congrArg List.head? hfds)
  | @cleared ret _ =>
    have hp : s.poll_.autoclear ret = (s.clear ret).poll_ := if_pos hh.auto
    exact (hh.clear ret).same hp
  | turns => exact hh.same rfl
  | resumes => exact hh.same rfl
  | keeps => exact hh.same rfl
  | ends => exact hh.same rfl
  | ticks => exact hh.same rfl

/-! ## the list of tasks -/

theorem Tasks.same (ht : Tasks s) (hfd : s'.fd = s.fd) (hl : s'.tasks_ = s.tasks_)
    (hr : s'.resumed = s.resumed) (hadd : s'.added = s.added) (hc : s.clock ≤ s'.clock)
    (hround : s.round ≤ s'.round) : Tasks s' := by
  constructor
  · rw [hfd, hl]
    exact ht.distinct
  · rw [hl]
    exact ht.first
  · rw [hl]
    exact fun t h => Nat.le_trans (ht.deadline t h) (Nat.add_le_add_right hc _)
  · rw [hl, hr, hadd]
    exact ht.ids
  · rw [hl]
    exact fun t h => Nat.le_trans (ht.since t h) hround

theorem Tasks.add (ht : Tasks s) {w : Nat} {p : SocketPoll} {d : Nat} (hp : p.fds ≠ [])
    (hn : (s.fd :: (s.tasks_.flatMap TaskInfo.fds ++ p.fds)).Nodup)
    (hd : d ≤ s.clock + 2147483647) : Tasks (s.add w p d) := by
  have hmem : ∀ t ∈ (s.add w p d).tasks_, t ∈ s.tasks_ ∨ t = ⟨w, p, d, s.added, s.round⟩ := by
    intro t h
    exact (List.mem_append.mp h).imp_right List.mem_singleton.mp
  constructor
  · show (s.fd :: (s.tasks_ ++ [_]).flatMap TaskInfo.fds).Nodup
    rw [List.flatMap_append, List.flatMap_singleton]
    exact hn
  · intro t h
    rcases hmem t h with h | rfl
    · exact ht.first t h
    · exact hp
  · intro t h
    rcases hmem t h with h | rfl
    · exact ht.deadline t h
    · exact hd
  · show ((s.tasks_ ++ [_]).map TaskInfo.id ++ _).Perm (List.range (s.added + 1))
    rw [List.map_append, List.range_succ, List.append_assoc]
    refine (List.perm_append_comm.append_left _).trans ?_
    rw [← List.append_assoc]
    exact ht.ids.append_right _
  · intro t h
    rcases hmem t h with h | rfl
    · exact ht.since t h
    · exact Nat.le_refl _

theorem Tasks.keep (ht : Tasks s) {c : SocketPoll} (hk : s.tasks_[k]? = some t)
    (hc : c.fds = t.fds) : Tasks (s.keep k t c) := by
  have hmem := List.mem_of_getElem? hk
  have hset : ∀ u ∈ s.tasks_.set k { t with poll_ := c }, u ∈ s.tasks_ ∨ u = { t with poll_ := c } :=
    fun u hu => List.mem_or_eq_of_mem_set hu
  constructor
  · show (s.fd :: (s.tasks_.set k _).flatMap TaskInfo.fds).Nodup
    rw [Elements.flatMap_set_same hk]
    · exact ht.distinct
    · exact hc
  · intro u hu
    rcases hset u hu with hu | rfl
    · exact ht.first u hu
    · show c.fds ≠ []
      rw [hc]
      exact ht.first t hmem
  · intro u hu
    rcases hset u hu with hu | rfl
    · exact ht.deadline u hu
    · exact ht.deadline t hmem
  · show ((s.tasks_.set k _).map TaskInfo.id ++ _).Perm _
    rw [Elements.map_set_same hk]
    · exact ht.ids
    · rfl
  · intro u hu
    rcases hset u hu with hu | rfl
    · exact ht.since u hu
    · exact ht.since t hmem

theorem Tasks.resume (ht : Tasks s) {c : SocketPoll} (hk : s.tasks_[k]? = some t) :
    Tasks (s.resume k t c) := by
  obtain ⟨hlt, he⟩ := List.getElem?_eq_some_iff.mp hk
  have hsub : (s.tasks_.eraseIdx k).Sublist s.tasks_ := List.eraseIdx_sublist _ _
  constructor
  · exact ht.distinct.sublist ((hsub.flatMap _).cons_cons _)
  · exact fun u hu => ht.first u (hsub.subset hu)
  · exact fun u hu => ht.deadline u (hsub.subset hu)
  · show ((s.tasks_.eraseIdx k).map TaskInfo.id ++ (s.resumed ++ [_]).map TaskInfo.id).Perm _
    rw [List.map_append, ← List.append_assoc]
    refine List.Perm.trans ?_ ht.ids
    refine List.perm_append_comm.trans ?_
    have hperm := (List.getElem_cons_eraseIdx_perm hlt).map TaskInfo.id
    rw [he] at hperm
    exact hperm.append_right _
  · exact fun u hu => ht.since u (hsub.subset hu)

theorem Tasks.effect (ht : Tasks s) (hd : Distinct s a) (he : Effect s a s') : Tasks s' := by
  have hfd := effect_fd he
  cases he with
  | adds _ hdl => exact ht.add hd.1 hd.2 hdl
  | pokes => exact ht.same hfd rfl rfl rfl (Nat.le_refl _) (Nat.le_refl _)
  | clears => exact ht.same hfd rfl rfl rfl (Nat.le_refl _) (Nat.le_refl _)
  | begins => exact ht.same hfd rfl rfl rfl (Nat.le_refl _) (Nat.le_succ _)
  | locks => exact ht.same hfd rfl rfl rfl (Nat.le_refl _) (Nat.le_refl _)
  | collects => exact ht.same hfd rfl rfl rfl (Nat.le_refl _) (Nat.le_refl _)
  | collected => exact ht.same hfd rfl rfl rfl (Nat.le_refl _) (Nat.le_refl _)
  | polls => exact ht.same hfd rfl rfl rfl (Nat.le_refl _) (Nat.le_refl _)
  | cleared => exact ht.same hfd rfl rfl rfl (Nat.le_refl _) (Nat.le_refl _)
  | turns => exact ht.same hfd rfl rfl rfl (Nat.le_refl _) (Nat.le_refl _)
  | resumes _ hk => exact ht.resume hk
  | keeps _ hk hc => exact ht.keep hk (SocketPoll.consignReport_fds hc)
  | ends => exact ht.same hfd rfl rfl rfl (Nat.le_refl _) (Nat.le_refl _)
  | ticks => exact ht.same hfd rfl rfl rfl (Nat.le_add_right _ _) (Nat.le_refl _)

/-! ## the time-out -/

theorem Fits.merge {_timeout : Int} {l : List (TaskInfo × Int)} {now : Nat} (h : Fits _timeout l)
    (hd : t.abs_timeout_ ≤ now + 2147483647) :
    Fits (merge _timeout t now) (l ++ [(t, t.left now)]) := by
  have hmem : ∀ x ∈ l ++ [(t, t.left now)], x ∈ l ∨ x = (t, t.left now) := by
    intro x hx
    exact (List.mem_append.mp hx).imp_right List.mem_singleton.mp
  have hle : t.left now ≤ 2147483647 := by
    unfold TaskInfo.left
    omega
  unfold Multiplexing.merge
  dsimp only
  split_ifs with hv hdue hneg
  · exact fun x _ _ => ⟨Int.le_refl 0, Int.le_max_left 0 _⟩
  · -- no task before has a deadline
    rw [toInt32_eq (by omega) (by omega)]
    intro x hx hxv
    rcases hmem x hx with hx | rfl
    · exact absurd (h x hx hxv).1 (Int.not_le.mpr hneg)
    · exact ⟨by omega, Int.le_max_right 0 _⟩
  · rw [toInt32_eq (by omega) (by omega)]
    intro x hx hxv
    rcases hmem x hx with hx | rfl
    · have := h x hx hxv
      omega
    · dsimp only
      omega
  · intro x hx hxv
    rcases hmem x hx with hx | rfl
    · exact h x hx hxv
    · exact absurd hxv hv

theorem Fits.msec {_timeout : Int} {l : List (TaskInfo × Int)} (h : Fits _timeout l) :
    Fits (State.msec _timeout) l := by
  unfold State.msec
  split_ifs with hlow
  · exact fun x _ _ => ⟨Int.le_refl 0, Int.le_max_left 0 _⟩
  · exact h

/-! ## the round -/

theorem Hosts.same (hh : s.Hosts) (hfds : s'.poll_.fds = s.poll_.fds) (hfd : s'.fd = s.fd)
    (hc : s'.collected = s.collected) : s'.Hosts := by
  unfold State.Hosts State.consigned at hh ⊢
  rw [hfds, hfd, hc]
  exact hh

theorem Since.add {new : List TaskInfo} (hn : s.Since new) (w : Nat) (p : SocketPoll) (d : Nat) :
    (s.add w p d).Since (new ++ [⟨w, p, d, s.added, s.round⟩]) := by
  constructor
  · show s.tasks_ ++ [_] = s.consigned ++ (new ++ [_])
    rw [hn.1, List.append_assoc]
  · intro t ht
    rcases List.mem_append.mp ht with ht | ht
    · exact hn.2 t ht
    · rw [List.mem_singleton.mp ht]
      exact Nat.le_refl s.round

theorem Phase.add {pc : Pc} (hp : s.Phase pc) (hf : s.free = true) (hpc : s.pc = pc) (w : Nat)
    (p : SocketPoll) (d : Nat) : (s.add w p d).Phase pc := by
  unfold State.free at hf
  rw [hpc] at hf
  cases pc with
  | idle => trivial
  | before => exact hp
  | collect => cases hf
  | poll msec =>
    obtain ⟨hh, hfits, new, hn, -⟩ := hp
    exact ⟨hh, hfits, _, Since.add hn w p d, fun _ => .inr rfl⟩
  | clear =>
    obtain ⟨hh, new, hn⟩ := hp
    exact ⟨hh, _, Since.add hn w p d⟩
  | after =>
    obtain ⟨hh, new, hn⟩ := hp
    exact ⟨hh, _, Since.add hn w p d⟩
  | report => cases hf

theorem Phase.poke {pc : Pc} (hp : s.Phase pc) {adding : Bool}
    (ha : s.adding = false → adding = false) : (s.poke adding).Phase pc := by
  have hfd : (s.poke adding).fd = s.fd := congrArg Prod.fst (break_pipes _ _)
  have hhosts : s.Hosts → (s.poke adding).Hosts := fun hh => Hosts.same hh rfl hfd rfl
  cases pc with
  | idle => trivial
  | before =>
    refine ⟨?_, hp.2⟩
    rw [hfd]
    exact hp.1
  | collect =>
    obtain ⟨hadd, hh, hrest⟩ := hp
    exact ⟨ha hadd, hhosts hh, hrest⟩
  | poll =>
    obtain ⟨hh, hfits, new, hn, -⟩ := hp
    exact ⟨hhosts hh, hfits, new, hn, fun _ => .inl (SocketBreaker.break_broken _)⟩
  | clear =>
    obtain ⟨hh, hn⟩ := hp
    exact ⟨hhosts hh, hn⟩
  | after =>
    obtain ⟨hh, hn⟩ := hp
    exact ⟨hhosts hh, hn⟩
  | report =>
    obtain ⟨hadd, hh, new, passed, kept, rest, hrest⟩ := hp
    refine ⟨ha hadd, hhosts hh, new, passed, kept, rest, ?_⟩
    rw [hfd]
    exact hrest

theorem take_fds (hn : (s.fd :: s.tasks_.flatMap TaskInfo.fds).Nodup) (hk : s.tasks_[k]? = some t) :
    ∀ fd ∈ t.fds, fd ∉ s.fd :: (s.tasks_.take k).flatMap TaskInfo.fds := by
  have htake : s.tasks_.take (k + 1) = s.tasks_.take k ++ [t] := by
    rw [List.take_add_one, hk]
    rfl
  have hn' : ((s.fd :: (s.tasks_.take k).flatMap TaskInfo.fds) ++ t.fds).Nodup := by
    have := hn.sublist (((List.take_sublist (k + 1) s.tasks_).flatMap TaskInfo.fds).cons_cons s.fd)
    rw [htake, List.flatMap_append, List.flatMap_singleton] at this
    exact this
  intro fd hfd hmem
  exact List.disjoint_of_nodup_append hn' hmem hfd

theorem Phase.collect {_timeout : Int} {p : SocketPoll} {ok : Bool}
    (hp : s.Phase (.collect k _timeout)) (ht : Tasks s) (hk : s.tasks_[k]? = some t)
    (hc : s.poll_.consign t.poll_ false = some (p, ok)) :
    (s.collect p k _timeout t).Phase (.collect (k + 1) (merge _timeout t s.clock)) := by
  obtain ⟨ha, hh, hcon, hfits⟩ := hp
  have hfds : p.fds = s.poll_.fds ++ t.fds := by
    apply SocketPoll.consign_fresh hc
    rw [hh, hcon]
    exact take_fds ht.distinct hk
  have hcon' : (s.collect p k _timeout t).consigned = s.consigned ++ [t] := List.map_append
  refine ⟨ha, ?_, ?_, hfits.merge (ht.deadline t (List.mem_of_getElem? hk))⟩
  · unfold State.Hosts
    have hfd : (s.collect p k _timeout t).fd = s.fd :=
      congrArg (fun b => b.pipes_.1) (SocketPoll.consign_breaker hc).1
    rw [hcon', hfd, List.flatMap_append, List.flatMap_singleton]
    show p.fds = _
    rw [hfds, hh]
    rfl
  · rw [hcon', hcon]
    show _ = s.tasks_.take (k + 1)
    rw [List.take_add_one, hk]
    rfl

theorem rest_of {kept rest : List TaskInfo} (hl : s.tasks_ = kept ++ rest) (hlen : kept.length = k)
    (hk : s.tasks_[k]? = some t) : ∃ rest', rest = t :: rest' := by
  rw [hl, ← hlen, List.getElem?_append_right (Nat.le_refl _), Nat.sub_self] at hk
  cases rest with
  | nil => cases hk
  | cons x rest =>
    cases hk
    exact ⟨rest, rfl⟩

theorem Phase.resume (hp : s.Phase (.report k)) (hk : s.tasks_[k]? = some t) (c : SocketPoll) :
    (s.resume k t c).Phase (.report k) := by
  obtain ⟨ha, hh, new, passed, kept, rest, hl, hlen, hsplit, hn⟩ := hp
  obtain ⟨rest', rfl⟩ := rest_of hl hlen hk
  refine ⟨ha, hh, new, passed ++ [t], kept, rest', ?_, hlen, ?_, hn⟩
  · show s.tasks_.eraseIdx k = _
    rw [hl, ← hlen, List.eraseIdx_append_of_length_le (Nat.le_refl _), Nat.sub_self]
    rfl
  · show s.consigned ++ new = _
    rw [hsplit, List.append_assoc]
    rfl

theorem Phase.keep (hp : s.Phase (.report k)) (hk : s.tasks_[k]? = some t) (c : SocketPoll) :
    (s.keep k t c).Phase (.report (k + 1)) := by
  obtain ⟨ha, hh, new, passed, kept, rest, hl, hlen, hsplit, hn⟩ := hp
  obtain ⟨rest', rfl⟩ := rest_of hl hlen hk
  refine ⟨ha, hh, new, passed ++ [t], kept ++ [{ t with poll_ := c }], rest', ?_, ?_, ?_, hn⟩
  · show s.tasks_.set k _ = _
    rw [hl, ← hlen, List.set_append_right _ _ (Nat.le_refl _), Nat.sub_self, List.append_assoc]
    rfl
  · rw [List.length_append, hlen]
    rfl
  · show s.consigned ++ new = _
    rw [hsplit, List.append_assoc]
    rfl

theorem Phase.effect (hi : Inv s) (he : Effect s a s') : s'.Phase s'.pc := by
  have hp := hi.phase
  have hfd := effect_fd he
  cases he with
  | adds hf => exact Phase.add hp hf rfl _ _ _
  | @pokes _ adding ha =>
    refine Phase.poke hp (fun hadd => ?_)
    rcases ha with ha | ⟨-, ha⟩
    · rw [ha, hadd]
    · exact ha
  | clears hpc =>
    show State.Phase _ s.pc
    rw [hpc]
    trivial
  | begins _ hc =>
    refine ⟨?_, rfl⟩
    rw [hfd]
    exact SocketPoll.clearEvent_fds hc hi.host.head
  | locks hpc ha =>
    rw [hpc] at hp
    obtain ⟨hfds, hnil⟩ := hp
    have hcon : s.consigned = [] := congrArg (List.map Prod.fst) hnil
    refine ⟨ha, ?_, hcon, ?_⟩
    · show s.poll_.fds = s.fd :: s.consigned.flatMap _
      rw [hcon]
      exact hfds
    · show Fits _ s.collected
      rw [hnil]
      intro c hc
      cases hc
  | collects hpc hk hc =>
    rw [hpc] at hp
    exact Phase.collect hp hi.tasks hk hc
  | collected hpc hk =>
    rw [hpc] at hp
    obtain ⟨-, hh, hcon, hfits⟩ := hp
    refine ⟨hh, hfits.msec, [], ⟨?_, fun c hc => absurd hc List.not_mem_nil⟩, fun h => absurd rfl h⟩
    show s.tasks_ = s.consigned ++ []
    rw [hcon, List.append_nil, List.take_of_length_le (List.getElem?_eq_none_iff.mp hk)]
  | polls hpc hw =>
    rw [hpc] at hp
    obtain ⟨hh, -, new, hn, -⟩ := hp
    exact ⟨Hosts.same hh (SocketPoll.waits_spec hw).1 hfd rfl, new, hn⟩
  | cleared hpc =>
    rw [hpc] at hp
    obtain ⟨hh, new, hn⟩ := hp
    refine ⟨Hosts.same hh ?_ hfd rfl, new, hn⟩
    exact congrArg (List.map PollFd.fd) (SocketPoll.autoclear_events _ _)
  | turns hpc ha =>
    rw [hpc] at hp
    obtain ⟨hh, new, hl, -⟩ := hp
    refine ⟨ha, hh, new, [], [], s.tasks_, rfl, rfl, hl.symm, ?_⟩
    show (s.fd :: (s.consigned ++ new).flatMap _).Nodup
    rw [← hl]
    exact hi.tasks.distinct
  | resumes hpc hk =>
    rw [hpc] at hp
    show State.Phase _ s.pc
    rw [hpc]
    exact Phase.resume hp hk _
  | keeps hpc hk =>
    rw [hpc] at hp
    exact Phase.keep hp hk _
  | ends => trivial
  | ticks => exact hp

theorem Inv.effect (hi : Inv s) (hd : Distinct s a) (he : Effect s a s') : Inv s' :=
  ⟨hi.host.effect he, hi.tasks.effect hd he, Phase.effect hi he⟩

theorem Inv.new (p q clock : Nat) : Inv (State.new p q clock) where
  host := ⟨rfl, SocketBreaker.new_wakes _, rfl, rfl⟩
  tasks := ⟨List.nodup_singleton _, nofun, nofun, .nil, nofun⟩
  phase := trivial

theorem Inv.run {p q clock : Nat} (h : Run step Distinct (State.new p q clock) s) : Inv s := by
  refine h.keep ?_ (.new p q clock)
  intro t a t' hi hd hs
  exact hi.effect hd (step_effect hs)

/-! ## who is resumed -/

/-- the wait of the task is over: it is one of the round, whose poll was for its descriptors, and the
poll failed, one of them is ready, or its time is over -/
def State.Over (s : State) (t : TaskInfo) : Prop :=
  (∃ k, s.pc = .report k) ∧ t ∈ s.consigned ∧ (∀ fd ∈ t.fds, fd ∈ s.poll_.fds) ∧
    (s.poll_.ret_ < 0 ∨ (∃ e ∈ s.poll_.events_, e.fd ∈ t.fds ∧ e.revents ≠ 0) ∨
      t.isValid = true ∧ t.abs_timeout_ ≤ s.clock)

/-- no task leaves the list, or one whose wait is over, and it is resumed -/
def State.Moves (s s' : State) : Prop :=
  (s'.resumed = s.resumed ∧ s.tasks_.map TaskInfo.id <+: s'.tasks_.map TaskInfo.id) ∨
    ∃ before t behind poll_, s.tasks_ = before ++ t :: behind ∧ s'.tasks_ = before ++ behind ∧
      s'.resumed = s.resumed ++ [{ t with poll_ }] ∧ s.Over t

/-- a poll: the tasks that were there when the round began are in it; a task that is not makes the
breaker readable, or its `Add` is about to; and the time-out -/
def State.Polls (s : State) (msec : Int) : Prop :=
  (∀ t ∈ s.tasks_, t.since < s.round → t ∈ s.consigned) ∧
    (∀ t ∈ s.consigned, ∀ fd ∈ t.fds, fd ∈ s.poll_.fds) ∧
    (∀ t ∈ s.tasks_, t ∉ s.consigned → s.poll_.breaker_.Readable ∨ s.adding = true) ∧
    Fits msec s.collected

theorem Hosts.subset (hh : s.Hosts) (ht : t ∈ s.consigned) : ∀ fd ∈ t.fds, fd ∈ s.poll_.fds := by
  intro fd hfd
  rw [hh]
  exact List.mem_cons_of_mem _ (List.mem_flatMap.mpr ⟨t, ht, hfd⟩)

theorem remaining_nonpos (h : s.remaining t ≤ 0) : t.isValid = true ∧ t.abs_timeout_ ≤ s.clock := by
  unfold State.remaining at h
  split_ifs at h with hv
  · unfold TaskInfo.left at h
    exact ⟨hv, by omega⟩
  · omega

/-- a task that came in since the round began is not reported to -/
theorem new_absent {new : List TaskInfo} (hh : s.Hosts)
    (hn : (s.fd :: (s.consigned ++ new).flatMap TaskInfo.fds).Nodup) (ht : t ∈ new) :
    ∀ fd ∈ t.fds, fd ∉ s.poll_.fds := by
  intro fd hfd hmem
  rw [hh] at hmem
  rw [List.flatMap_append, ← List.cons_append] at hn
  exact List.disjoint_of_nodup_append hn hmem (List.mem_flatMap.mpr ⟨t, ht, hfd⟩)

/-- **a task is resumed where its wait is over** -/
theorem Inv.over (hi : Inv s) (hpc : s.pc = .report k) (hk : s.tasks_[k]? = some t)
    {c : SocketPoll} {ret : Int}
    (hc : s.poll_.consignReport t.poll_ (s.remaining t) ret = some (c, true)) : s.Over t := by
  have hp := hi.phase
  rw [hpc] at hp
  obtain ⟨-, hh, new, passed, kept, rest, hl, hlen, hsplit, hn⟩ := hp
  obtain ⟨rest', rfl⟩ := rest_of hl hlen hk
  obtain ⟨e0, es, he⟩ : ∃ e0 es, t.poll_.events_ = e0 :: es := by
    apply List.exists_cons_of_ne_nil
    intro hnil
    refine hi.tasks.first t (List.mem_of_getElem? hk) ?_
    unfold TaskInfo.fds SocketPoll.fds
    rw [hnil]
    rfl
  have h0 : e0.fd ∈ t.fds := by
    unfold TaskInfo.fds SocketPoll.fds
    rw [he]
    exact List.mem_cons_self
  have hmem : t ∈ s.consigned := by
    have : t ∈ s.consigned ++ new := by
      rw [hsplit]
      exact List.mem_append_right _ List.mem_cons_self
    refine (List.mem_append.mp this).resolve_right (fun hnew => ?_)
    rw [SocketPoll.report_absent he (new_absent hh hn hnew _ h0)] at hc
    cases hc
  obtain ⟨before, behind, hcon⟩ := List.append_of_mem hmem
  refine ⟨⟨k, hpc⟩, hmem, Hosts.subset hh hmem, ?_⟩
  have hfds : s.poll_.fds =
      (s.fd :: before.flatMap TaskInfo.fds) ++ t.poll_.fds ++ behind.flatMap TaskInfo.fds := by
    rw [hh, hcon, List.flatMap_append, List.flatMap_cons, List.append_assoc]
    rfl
  have hpre : e0.fd ∉ s.fd :: before.flatMap TaskInfo.fds := by
    intro hb
    rw [hcon, List.append_assoc, List.flatMap_append, ← List.cons_append] at hn
    refine List.disjoint_of_nodup_append hn hb ?_
    exact List.mem_flatMap.mpr ⟨t, List.mem_cons_self, h0⟩
  rcases SocketPoll.report_done he hfds hpre hc with hret | hready | htime
  · exact .inl hret
  · exact .inr (.inl hready)
  · exact .inr (.inr (remaining_nonpos htime))

theorem Inv.moves (hi : Inv s) (he : Effect s a s') : s.Moves s' := by
  cases he with
  | adds =>
    refine .inl ⟨rfl, ?_⟩
    show _ <+: (s.tasks_ ++ [_]).map TaskInfo.id
    rw [List.map_append]
    exact List.prefix_append _ _
  | pokes => exact .inl ⟨rfl, List.prefix_refl _⟩
  | clears => exact .inl ⟨rfl, List.prefix_refl _⟩
  | begins => exact .inl ⟨rfl, List.prefix_refl _⟩
  | locks => exact .inl ⟨rfl, List.prefix_refl _⟩
  | collects => exact .inl ⟨rfl, List.prefix_refl _⟩
  | collected => exact .inl ⟨rfl, List.prefix_refl _⟩
  | polls => exact .inl ⟨rfl, List.prefix_refl _⟩
  | cleared => exact .inl ⟨rfl, List.prefix_refl _⟩
  | turns => exact .inl ⟨rfl, List.prefix_refl _⟩
  | @resumes _ k t c hpc hk hc =>
    obtain ⟨hlt, hkt⟩ := List.getElem?_eq_some_iff.mp hk
    refine .inr ⟨s.tasks_.take k, t, s.tasks_.drop (k + 1), c, ?_, ?_, rfl, hi.over hpc hk hc⟩
    · rw [← hkt, List.getElem_cons_drop, List.take_append_drop]
    · exact List.eraseIdx_eq_take_drop_succ _ _
  | @keeps _ k t c _ hk =>
    refine .inl ⟨rfl, ?_⟩
    show _ <+: (s.tasks_.set k _).map TaskInfo.id
    rw [Elements.map_set_same hk]
    rfl
  | ends => exact .inl ⟨rfl, List.prefix_refl _⟩
  | ticks => exact .inl ⟨rfl, List.prefix_refl _⟩

theorem Inv.polls (hi : Inv s) {msec : Int} (hpc : s.pc = .poll msec) : s.Polls msec := by
  have hp := hi.phase
  rw [hpc] at hp
  obtain ⟨hh, hfits, new, ⟨hl, hnew⟩, hbreak⟩ := hp
  have hmem : ∀ t ∈ s.tasks_, t ∉ s.consigned → t ∈ new := by
    intro t ht hnot
    rw [hl] at ht
    exact (List.mem_append.mp ht).resolve_left hnot
  refine ⟨?_, fun t ht => Hosts.subset hh ht, ?_, hfits⟩
  · intro t ht hlt
    by_contra hnot
    exact Nat.not_le_of_lt hlt (hnew t (hmem t ht hnot))
  · intro t ht hnot
    rcases hbreak (List.ne_nil_of_mem (hmem t ht hnot)) with hb | ha
    · exact .inl (hi.host.wakes hb hi.host.pipe)
    · exact .inr ha

/-- **The tasks of a multiplexer.**  In every run in which tasks use distinct descriptors, each that
was added is on the list or was resumed, once; it is resumed where it leaves the list, in a round
whose poll was for its descriptors; and every poll is for the tasks there were when the round began,
returns when one comes in, and has a time-out that none of its tasks outwaits. -/
theorem rounds {p q clock : Nat} {s : State} (h : Run step Distinct (State.new p q clock) s) :
    (s.tasks_.map TaskInfo.id ++ s.resumed.map TaskInfo.id).Perm (List.range s.added) ∧
      (∀ a s', step s a = some s' → s.Moves s') ∧ ∀ msec, s.pc = .poll msec → s.Polls msec := by
  have hi := Inv.run h
  exact ⟨hi.tasks.ids, fun _ _ hs => hi.moves (step_effect hs), fun _ hpc => hi.polls hpc⟩

def sleeper : SocketPoll :=
  (SocketPoll.new (.new (.made 5 6)) false).addEvent 7 true false none

theorem rounds_sleeper : ∃ s : State, s.pc = .poll 1000 ∧ (∃ t ∈ s.consigned, t.fds = [5, 7]) ∧
    s.Polls 1000 ∧ (s.tasks_.map TaskInfo.id ++ s.resumed.map TaskInfo.id).Perm [0] := by
  have hadd : Run step Distinct (State.new 3 4 50) _ :=
    .one (a := .Add 0 sleeper 1000 50) ⟨by decide, by decide⟩ rfl
  have hlock := (((hadd.tail ⟨.poke, trivial, rfl⟩).tail ⟨.Run 600000, trivial, rfl⟩).tail
    ⟨.lock, trivial, rfl⟩)
  obtain ⟨s, hs, hpc, ht, hn⟩ : ∃ s, Run step Distinct (State.new 3 4 50) s ∧ s.pc = .poll 1000 ∧
      (∃ t ∈ s.consigned, t.fds = [5, 7]) ∧ s.added = 1 := by
    have hpoll := (hlock.tail ⟨.go 0, trivial, rfl⟩).tail ⟨.go 0, trivial, rfl⟩
    refine ⟨_, hpoll, ?_, ⟨_, List.mem_singleton.mpr rfl, rfl⟩, rfl⟩
    decide +kernel
  obtain ⟨hids, -, hpolls⟩ := rounds hs
  rw [hn] at hids
  exact ⟨s, hpc, ht, hpolls 1000 hpc, hids⟩

end
end Coroutine.Multiplexing
