import LearnDiary.MessageQueue.Barrier
import LearnDiary.MessageQueue.Outlive

/-!
# Message queues: waiting for a message

A thread in `WaitMessage` sleeps on the wrapper it has found, or on the loop that runs the message;
on the thread of the queue it runs a loop until no entry has the id.  It returns when it is woken,
without a second look at the list.

* `Heeds`          no step deletes, replaces or breaks off under the feet of one that waits, and
                   none of them wakes up without a notify;
* `Waits`          what is known of a thread that sleeps, is woken, or runs a loop of its own;
* `wait_message`   in a run that heeds them the message is gone when `WaitMessage` returns.
-/

namespace MessageQueue
open State History

def State.pends (m : MessagePost_t) (s : State) : Prop :=
  ∃ it ∈ s.pending m.reg.queue, it.postid = m

def Frame.Holds (m : MessagePost_t) (f : Frame) : Prop := ∃ w, f.message = some w ∧ w.postid = m

def State.dispatches (m : MessagePost_t) (s : State) : Prop :=
  ∃ f ∈ s.frames m.reg.queue, f.Holds m

/-- the thread is in the loop of a `WaitMessage`, or enters it -/
def State.loopsFor (t : Thread) (m : MessagePost_t) (s : State) : Prop :=
  s.ctl t = .entering (.gone m) ∨ ∃ f ∈ s.frames t, f.breaker_func_ = .gone m

/-- a thread is in `WaitMessage` with the id -/
def State.awaited (m : MessagePost_t) (s : State) : Prop :=
  ∃ t, (∃ c b, s.ctl t = .blocked c b (.waitMessage m)) ∨ s.loopsFor t m

/-- a message that is replaced is not dispatched, and nobody sleeps on it; one that is deleted is
not both waited for and dispatched -/
def Heeded (s : State) (w : MessageWrapper) (why : Why) : Prop :=
  (why = .replace → ¬ s.dispatches w.postid ∧
    ∀ t m, s.ctl t ≠ .blocked (.wait_end w.self) false (.waitMessage m)) ∧
  (why ≠ .replace → s.awaited w.postid → ¬ s.dispatches w.postid)

/-- the step heeds those who wait, and none of them wakes up without a notify -/
def Heeds (s : State) (a : Act) : Prop :=
  ¬ a.cuts s ∧ (∀ w ∈ a.victims s, Heeded s w a.why) ∧ ∀ t m, ¬ a.early s t (.waitMessage m)

/-- the number was given out, and the message is gone -/
structure Past (m : MessagePost_t) (s : State) : Prop where
  drawn : m.seq ∈ s.draws
  unlisted : ¬ s.pends m
  done : ¬ s.dispatches m

/-- the wrapper at the address stands for the id, in the list or in a loop -/
inductive Carries (m : MessagePost_t) (a : Nat) (s : State) : Prop
  | pending (it : MessageWrapper) (hit : it ∈ s.pending m.reg.queue) (hself : it.self = a)
      (hid : it.postid = m)
  | running (f : Frame) (hf : f ∈ s.frames m.reg.queue) (w : MessageWrapper)
      (hw : f.message = some w) (hself : w.self = a) (hid : w.postid = m)

/-- so it does, and whoever takes it away will delete it -/
inductive Held (m : MessagePost_t) (a : Nat) (s : State) : Prop
  | pending (it : MessageWrapper) (hit : it ∈ s.pending m.reg.queue) (hself : it.self = a)
      (hid : it.postid = m)
  | running (f : Frame) (hf : f ∈ s.frames m.reg.queue) (w : MessageWrapper)
      (hw : f.message = some w) (hself : w.self = a) (hid : w.postid = m) (hone : w.oneShot = true)

/-- what is known of a thread that sleeps on the loop with the condition `a` -/
structure Sleeps (m : MessagePost_t) (a : Nat) (s : State) : Prop where
  drawn : m.seq ∈ s.draws
  unlisted : ¬ s.pends m
  below : a < s.next
  home : ∀ u, ∀ i ∈ s.infos u, i.runing_cond = a → u = m.reg.queue
  outer : ∀ f ∈ s.frames m.reg.queue, f.Holds m → a ≤ f.pushed

variable {E : Guard → Prop} {s s' : State} {m : MessagePost_t} {a : Nat} {t : Thread}

/-! ## what moves do to them -/

section
variable {D : State → MessageWrapper → Why → Prop}

/-- a message that was given its number earlier does not come back -/
theorem Move.unlisted (hm : Move D E s s') (hn : s'.draws.Nodup) (hd : m.seq ∈ s.draws)
    (h : s'.pends m) : s.pends m := by
  obtain ⟨it, hit, rfl⟩ := h
  rcases hm.entry.pending hit with ⟨x, hx, hid⟩ | hnew
  · exact ⟨x, hx, hid⟩
  · rw [hnew] at hn
    exact absurd hd (List.nodup_cons.mp hn).1

theorem Past.move (h : Past m s) (hm : Move D E s s') (hn : s'.draws.Nodup) : Past m s' := by
  refine ⟨hm.draws.mono h.drawn, fun hp => h.unlisted (hm.unlisted hn h.drawn hp), ?_⟩
  rintro ⟨f, hf, w, hw, hid⟩
  rcases hm.shift.running hf hw with ⟨f₀, hf₀, -, hw₀⟩ | ⟨it, hit, hsame, -⟩
  · exact h.done ⟨f₀, hf₀, w, hw₀, hid⟩
  · exact h.unlisted ⟨it, hit, (fixed_postid hsame.1).trans hid⟩

theorem Sleeps.move (h : Sleeps m a s) (hm : Move D E s s') (hn : s'.draws.Nodup) :
    Sleeps m a s' := by
  refine ⟨hm.draws.mono h.drawn, fun hp => h.unlisted (hm.unlisted hn h.drawn hp),
    Nat.lt_of_lt_of_le h.below hm.entry.next_le, ?_, ?_⟩
  · intro u i hi ha
    rcases hm.shift.snapshot hi with ⟨j, hj, hcond, -⟩ | ⟨hnext, -⟩
    · exact h.home u j hj (hcond.trans ha)
    · have := h.below
      omega
  · rintro f hf ⟨w, hw, hid⟩
    rcases hm.shift.running hf hw with ⟨f₀, hf₀, hpush, hw₀⟩ | ⟨it, hit, hsame, -⟩
    · rw [← hpush]
      exact h.outer f₀ hf₀ ⟨w, hw₀, hid⟩
    · exact absurd ⟨it, hit, (fixed_postid hsame.1).trans hid⟩ h.unlisted

theorem holds_head {f : Frame} (hpc : f.pc = .head) : ¬ f.Holds m := by
  rintro ⟨w, hw, -⟩
  unfold Frame.message at hw
  rw [hpc] at hw
  cases hw

theorem Sleeps.past (h : Sleeps m a s) (hn : Nesting s) {u : Thread} {f : Frame}
    {rest : List Frame} {front : List RunLoopInfo} {info : RunLoopInfo}
    (hf : s.frames u = f :: rest) (hpc : f.pc = .head) (hi : s.infos u = front ++ [info])
    (ha : info.runing_cond = a) : Past m s := by
  refine ⟨h.drawn, h.unlisted, ?_⟩
  rintro ⟨g, hg, hhold⟩
  have hle := h.outer g hg hhold
  have hu : u = m.reg.queue := by
    refine h.home u info ?_ ha
    rw [hi]
    exact List.mem_append_right _ List.mem_cons_self
  have hpush : f.pushed = a := by
    rw [← (hn.top hf hi).1.1]
    exact ha
  subst hu
  -- the loops below have pushed their entries earlier
  have hdesc := hn.ascending m.reg.queue
  rw [hn.conds, List.pairwise_reverse, hf, List.map_cons] at hdesc
  rw [hf] at hg
  rcases List.mem_cons.mp hg with rfl | hg
  · exact holds_head hpc hhold
  · have hlt := (List.pairwise_cons.mp hdesc).1 _ (List.mem_map_of_mem hg)
    omega

def Event.deletes : Event → Option Nat
  | .remove w _ => some w.self
  | .destroy w => some w.self
  | _ => none

/-- a wrapper that is deleted wakes those who sleep on it -/
theorem Move.wakes (hm : Move D E s s') {es : List Event} (hl : s'.log = es ++ s.log) {e : Event}
    (he : e ∈ es) (ha : e.deletes = some a) (t : Thread) :
    s'.ctl t = (s.ctl t).notify (.wait_end a) := by
  have hnone : ∀ es', s'.log = es' ++ s.log → (∀ x ∈ es', x.deletes = none) → False := by
    intro es' hl' hno
    rw [grown hl hl'] at he
    rw [hno e he] at ha
    cases ha
  cases hm with
  | replace q c l₁ w l₂ w' =>
    rw [grown hl (show _ = [.enqueue w', .remove w .replace] ++ s.log from rfl)] at he
    rcases List.mem_cons.mp he with rfl | he
    · cases ha
    · rw [List.mem_singleton.mp he] at ha
      cases ha
      rfl
  | delete q c l₁ w l₂ why =>
    rw [grown hl (show _ = [.remove w why] ++ s.log from rfl)] at he
    rw [List.mem_singleton.mp he] at ha
    cases ha
    rfl
  | finish u f rest w =>
    rw [grown hl (show _ = [.destroy w] ++ s.log from rfl)] at he
    rw [List.mem_singleton.mp he] at ha
    cases ha
    rfl
  | pop u c f rest =>
    refine (hnone [] ?_ (fun x hx => by cases hx)).elim
    rw [returned_log]
    rfl
  | come u e' hC =>
    refine (hnone [e'] rfl (fun x hx => ?_)).elim
    rw [List.mem_singleton.mp hx]
    cases hC with
    | gone | ran | woken | unlocked | waited => rfl
  | tick | setBreak | enter | clear | wake | handlerReturn | finishPeriod | turn =>
    exact (hnone [] rfl (fun x hx => by cases hx)).elim
  | draw => exact (hnone [.draw (s.s_seq + 1)] rfl (by simp [Event.deletes])).elim
  | create q =>
    exact (hnone [.install ⟨⟨q, s.s_seq + 1⟩, 0, false⟩, .create q, .draw (s.s_seq + 1)] rfl
      (by simp [Event.deletes])).elim
  | install q c x =>
    exact (hnone [.install x, .draw (s.s_seq + 1)] rfl (by simp [Event.deletes])).elim
  | uninstall q c l₁ x l₂ => exact (hnone [.uninstall x] rfl (by simp [Event.deletes])).elim
  | enqueue q c w =>
    exact (hnone [.enqueue w, .draw (s.s_seq + 1)] rfl (by simp [Event.deletes])).elim
  | dropQueue u => exact (hnone [.release u] rfl (by simp [Event.deletes])).elim
  | idle u => exact (hnone [.idle u] rfl (by simp [Event.deletes])).elim
  | pick u c f rest front info w => exact (hnone [.pick w _] rfl (by simp [Event.deletes])).elim
  | invoke u f rest w d x => exact (hnone [.invoke w x] rfl (by simp [Event.deletes])).elim

theorem frames_below {u : Thread} {f g : Frame} {rest l : List Frame}
    (hf₀ : s.frames u = g :: rest) (hf' : s'.frames = Function.update s.frames u l)
    (hl : ∀ x ∈ rest, x ∈ l) (hf : f ∈ s.frames t) : f ∈ s'.frames t ∨ t = u ∧ f = g := by
  rw [hf']
  by_cases e : t = u
  · subst e
    rw [hf₀] at hf
    rw [Function.update_self]
    rcases List.mem_cons.mp hf with rfl | hf
    · exact Or.inr ⟨rfl, rfl⟩
    · exact Or.inl (hl f hf)
  · rw [Function.update_of_ne e]
    exact Or.inl hf

theorem Shift.kept (hs : Shift s s') {f : Frame} {w : MessageWrapper} (hf : f ∈ s.frames t)
    (hw : f.message = some w) : (∃ f' ∈ s'.frames t, f'.message = some w) ∨
      (f.pc = .dispatch w true none [] ∧ s'.log = .destroy w :: s.log) ∨
      f.pc = .dispatch w false none [] := by
  cases hs with
  | still hf' | clear u g rest front info hf₀ hpc hi₀ hf' =>
    refine Or.inl ⟨f, ?_, hw⟩
    rw [hf']
    exact hf
  | enter u b hk hf' =>
    refine Or.inl ⟨f, ?_, hw⟩
    rw [hf']
    by_cases e : t = u
    · subst e
      rw [Function.update_self]
      exact List.mem_cons_of_mem _ hf
    · rw [Function.update_of_ne e]
      exact hf
  | pop u g rest front info hf₀ hpc hi₀ hf' =>
    rcases frames_below hf₀ hf' (fun _ hx => hx) hf with hf | ⟨-, rfl⟩
    · exact Or.inl ⟨f, hf, hw⟩
    · exact absurd ⟨w, hw, rfl⟩ (holds_head hpc)
  | pick u g rest front info x d fit hf₀ hpc hi₀ hfit hd hx hf' =>
    rcases frames_below hf₀ hf' (fun _ hx => List.mem_cons_of_mem _ hx) hf with hf | ⟨-, rfl⟩
    · exact Or.inl ⟨f, hf, hw⟩
    · exact absurd ⟨w, hw, rfl⟩ (holds_head hpc)
  | turn u g rest pc es hf₀ hpc hf' hi hn hl =>
    rcases frames_below hf₀ hf' (fun _ hx => List.mem_cons_of_mem _ hx) hf with hf | ⟨rfl, rfl⟩
    · exact Or.inl ⟨f, hf, hw⟩
    · have hnew : ({ f with pc := pc } : Frame) ∈ s'.frames t := by
        rw [hf', Function.update_self]
        exact List.mem_cons_self
      unfold Frame.message at hw
      generalize hold : f.pc = old at hpc hw
      cases hpc with
      | idle | wake => cases hw
      | invoke x d y l | handlerReturn x d y l => exact Or.inl ⟨_, hnew, hw⟩
      | finish x =>
        cases hw
        exact Or.inr (Or.inl ⟨rfl, hl⟩)
      | finishPeriod x =>
        cases hw
        exact Or.inr (Or.inr rfl)

theorem lists_beside {p q : MessageQueue_t} {l₁ l₂ l : List MessageWrapper} {w it : MessageWrapper}
    (hl₀ : s.pending p = l₁ ++ w :: l₂) (hp : s'.pending = Function.update s.pending p l)
    (hl : ∀ x ∈ l₁ ++ l₂, x ∈ l) (hit : it ∈ s.pending q) : it ∈ s'.pending q ∨ q = p ∧ it = w := by
  rw [hp]
  by_cases e : q = p
  · subst e
    rw [hl₀] at hit
    rw [Function.update_self]
    rcases List.mem_append.mp hit with hit | hit
    · exact Or.inl (hl it (List.mem_append_left _ hit))
    · rcases List.mem_cons.mp hit with rfl | hit
      · exact Or.inr ⟨rfl, rfl⟩
      · exact Or.inl (hl it (List.mem_append_right _ hit))
  · rw [Function.update_of_ne e]
    exact Or.inl hit

/-- an entry stays, is removed, or is picked for the only time -/
theorem Entry.kept (he : Entry D E s s') {q : MessageQueue_t} {it : MessageWrapper}
    (hit : it ∈ s.pending q) : (∃ it' ∈ s'.pending q, it.Same it') ∨
      (∃ why es, s'.log = es ++ s.log ∧ .remove it why ∈ es ∧ (why ≠ .release → D s it why) ∧
        (why = .release → s.infos q = [])) ∨
      it.oneShot = true ∧ ∃ fit, s'.log = .pick it fit :: s.log := by
  cases he with
  | quiet hp =>
    refine Or.inl ⟨it, ?_, .refl it⟩
    rw [hp]
    exact hit
  | enqueue p w he hw hq hp =>
    refine Or.inl ⟨it, ?_, .refl it⟩
    rw [hp]
    by_cases e : q = p
    · subst e
      rw [Function.update_self]
      exact List.mem_append_left _ hit
    · rw [Function.update_of_ne e]
      exact hit
  | replace p l₁ w l₂ w' hl₀ hw hid hm hq hd hp hn hl =>
    rcases lists_beside hl₀ hp (fun _ hx => List.mem_append_left _ hx) hit with hit | ⟨-, rfl⟩
    · exact Or.inl ⟨it, hit, .refl it⟩
    · exact Or.inr (Or.inl ⟨.replace, [.enqueue w', .remove it .replace], hl,
        List.mem_cons_of_mem _ List.mem_cons_self, fun _ => hd, fun e => by cases e⟩)
  | delete p l₁ w l₂ why hl₀ hd hp hn hl hr =>
    rcases lists_beside hl₀ hp (fun _ hx => hx) hit with hit | ⟨rfl, rfl⟩
    · exact Or.inl ⟨it, hit, .refl it⟩
    · exact Or.inr (Or.inl ⟨why, [.remove it why], hl, List.mem_cons_self, hd, hr⟩)
  | take p l₁ w l₂ fit hl₀ hno hone hp hn hl =>
    rcases lists_beside hl₀ hp (fun _ hx => hx) hit with hit | ⟨-, rfl⟩
    · exact Or.inl ⟨it, hit, .refl it⟩
    · exact Or.inr (Or.inr ⟨hone, fit, hl⟩)
  | fire p l₁ w l₂ w' fit hl₀ hno hone hw' hp hn hl =>
    have hsub : ∀ x ∈ l₁ ++ l₂, x ∈ l₁ ++ w' :: l₂ := by
      intro x hx
      rcases List.mem_append.mp hx with hx | hx
      · exact List.mem_append_left _ hx
      · exact List.mem_append_right _ (List.mem_cons_of_mem _ hx)
    rcases lists_beside hl₀ hp hsub hit with hit | ⟨rfl, rfl⟩
    · exact Or.inl ⟨it, hit, .refl it⟩
    · refine Or.inl ⟨w', ?_, hw'⟩
      rw [hp, Function.update_self]
      exact List.mem_append_right _ List.mem_cons_self

theorem Shift.picks (hs : Shift s s') (hent : Entries s) {w : MessageWrapper}
    {fit : List HandlerWrapper} (hl : s'.log = .pick w fit :: s.log) :
    ∃ f ∈ s'.frames w.postid.reg.queue, f.message = some w := by
  have hes : ∀ es, s'.log = es ++ s.log → [.pick w fit] = es := fun es hl' =>
    grown (show s'.log = [.pick w fit] ++ s.log from hl) hl'
  cases hs with
  | still hf hi hn es he hl' =>
    have hout := he (.pick w fit) (by rw [← hes es hl']; exact List.mem_cons_self)
    cases hout
  | enter u b hk hf hi hn hl' | clear u f rest front info hf₀ hpc hi₀ hf hi hn hl'
  | pop u f rest front info hf₀ hpc hi₀ hf hi hn hl' => cases hes [] hl'
  | pick u f rest front info x d fit' hf₀ hpc hi₀ hfit hd hx hf hi hn hl' =>
    cases hes [.pick x fit'] hl'
    obtain ⟨it, hit, hsame⟩ := hx
    have hu : w.postid.reg.queue = u := by
      rw [← fixed_postid hsame.1]
      exact hent.home u it hit
    refine ⟨{ f with pc := .dispatch w d none fit }, ?_, rfl⟩
    rw [hu, hf, Function.update_self]
    exact List.mem_cons_self
  | turn u f rest pc es hf₀ hpc hf hi hn hl' =>
    have hes := hes es hl'
    subst hes
    generalize f.pc = old at hpc
    cases hpc

theorem Held.move (h : Held m a s) (hent : Entries s) (hserved : Served s) (hm : Move D E s s') :
    Held m a s' ∨ ∀ t, s'.ctl t = (s.ctl t).notify (.wait_end a) := by
  cases h with
  | pending it hit hself hid =>
    rcases hm.entry.kept hit with ⟨it', hit', hsame⟩ | ⟨why, es, hl, hrem, -⟩ | ⟨hone, fit, hl⟩
    · exact Or.inl (.pending it' hit' ((fixed_self hsame.1).symm.trans hself)
        ((fixed_postid hsame.1).symm.trans hid))
    · exact Or.inr (hm.wakes hl hrem (congrArg some hself))
    · obtain ⟨f, hf, hw⟩ := hm.shift.picks hent hl
      rw [hid] at hf
      exact Or.inl (.running f hf it hw hself hid hone)
  | running f hf w hw hself hid hone =>
    rcases hm.shift.kept hf hw with ⟨f', hf', hw'⟩ | ⟨hpc, hl⟩ | hpc
    · exact Or.inl (.running f' hf' w hw' hself hid hone)
    · exact Or.inr (hm.wakes (show s'.log = [.destroy w] ++ s.log from hl) List.mem_cons_self
        (congrArg some hself))
    · rw [(hserved.home _ f hf w false none [] hpc).2.symm] at hone
      cases hone

theorem Shift.breaker (hs : Shift s s') {f : Frame} (hf : f ∈ s'.frames t) :
    (∃ f₀ ∈ s.frames t, f₀.breaker_func_ = f.breaker_func_) ∨ s.ctl t = .entering f.breaker_func_ := by
  -- the loops of one thread change
  have hone : ∀ {u : Thread} {l : List Frame}, s'.frames = Function.update s.frames u l →
      f ∈ s.frames t ∨ t = u ∧ f ∈ l := by
    intro u l hupd
    rw [hupd] at hf
    exact Elements.mem_update hf
  cases hs with
  | still hf' | clear u g rest front info hf₀ hpc hi₀ hf' =>
    rw [hf'] at hf
    exact Or.inl ⟨f, hf, rfl⟩
  | enter u b hk hf' =>
    rcases hone hf' with hf | ⟨rfl, hf⟩
    · exact Or.inl ⟨f, hf, rfl⟩
    · rcases List.mem_cons.mp hf with rfl | hf
      · exact Or.inr hk
      · exact Or.inl ⟨f, hf, rfl⟩
  | pop u g rest front info hf₀ hpc hi₀ hf' =>
    rcases hone hf' with hf | ⟨rfl, hf⟩
    · exact Or.inl ⟨f, hf, rfl⟩
    · refine Or.inl ⟨f, ?_, rfl⟩
      rw [hf₀]
      exact List.mem_cons_of_mem _ hf
  | pick u g rest front info x d fit hf₀ hpc hi₀ hfit hd hx hf' | turn u g rest pc es hf₀ hpc hf' =>
    rcases hone hf' with hf | ⟨rfl, hf⟩
    · exact Or.inl ⟨f, hf, rfl⟩
    · rw [hf₀]
      rcases List.mem_cons.mp hf with rfl | hf
      · exact Or.inl ⟨g, List.mem_cons_self, rfl⟩
      · exact Or.inl ⟨f, List.mem_cons_of_mem _ hf, rfl⟩

theorem Entries.beside (h : Entries s) {q : MessageQueue_t} {l₁ l₂ : List MessageWrapper}
    {w x : MessageWrapper} (hl : s.pending q = l₁ ++ w :: l₂) (hx : x ∈ l₁ ++ l₂) :
    x.self ≠ w.self := by
  have hasc := h.ascending q
  rw [hl, List.map_append, List.map_cons, List.pairwise_append] at hasc
  rcases List.mem_append.mp hx with hx | hx
  · exact Nat.ne_of_lt (hasc.2.2 _ (List.mem_map_of_mem hx) _ List.mem_cons_self)
  · exact (Nat.ne_of_lt ((List.pairwise_cons.mp hasc.2.1).1 _ (List.mem_map_of_mem hx))).symm

end

/-! ## the threads that wait -/

structure Waits (s : State) : Prop where
  zero : s.map 0 = none
  account : Account s
  nesting : Nesting s
  numbered : Numbered s
  came : ∀ t, ∀ f ∈ s.frames t, ∀ w, f.message = some w → ∃ w₀, .enqueue w₀ ∈ s.log ∧ w₀.Same w
  shown : ∀ q, ∀ i ∈ s.infos q,
    i.runing_message_id = KNullPost ∨ i.runing_message_id.seq ∈ s.draws
  single : ∀ m a b, Carries m a s → Carries m b s → a = b
  own : ∀ t m, s.loopsFor t m → m.reg.queue = t ∧ m.seq ∈ s.draws
  enters : ∀ t m, s.ctl t = .entering (.gone m) → ∀ g ∈ s.frames t, g.Holds m → s.pends m
  nested : ∀ t, (s.frames t).Pairwise
    (fun f g => ∀ m, f.breaker_func_ = .gone m → g.Holds m → s.pends m)
  wrapper : ∀ t a m, s.ctl t = .blocked (.wait_end a) false (.waitMessage m) → Held m a s
  loop : ∀ t a m, s.ctl t = .blocked (.runing a) false (.waitMessage m) → Sleeps m a s
  woken : ∀ t c m, s.ctl t = .blocked c true (.waitMessage m) → Past m s
  ran : ∀ t m, s.ctl t = .ran m → Past m s

namespace Waits

theorem known_pending (h : Waits s) (hp : s.pends m) : m.seq ∈ s.draws := by
  obtain ⟨it, hit, rfl⟩ := hp
  exact h.numbered.known _ (.pending _ it hit rfl)

theorem carries_known (h : Waits s) (hc : Carries m a s) : m.seq ∈ s.draws := by
  cases hc with
  | pending it hit hself hid => exact h.known_pending ⟨it, hit, hid⟩
  | running f hf w hw hself hid =>
    subst hid
    exact h.numbered.known _ (.running _ f w hf hw rfl)

/-- a one-shot message that is pending is run by no loop -/
theorem alone (h : Waits s) {it x : MessageWrapper} {f : Frame} (hit : it ∈ s.pending m.reg.queue)
    (hone : it.oneShot = true) (hf : f ∈ s.frames m.reg.queue) (hx : f.message = some x)
    (hself : x.self = it.self) : False := by
  have hent := h.account.ordered.entries
  have hfixed := hent.fixed_of_self (h.came _ f hf x hx) (hent.came _ it hit) hself
  obtain ⟨w₀, h0, hsame⟩ := hent.came _ it hit
  have heq : w₀ = it := hsame.2 ((fixed_oneShot hsame.1).trans hone)
  subst heq
  have hxw : x = w₀ := alike hent h0 hone (h.came _ f hf x hx) hfixed
  subst hxw
  have hheld := h.account.served.held x hone
  rw [h.account.fresh hit hone, hent.home _ x hit] at hheld
  have hpos : 0 < (s.frames m.reg.queue).countP (Frame.runs x) :=
    List.countP_pos_iff.mpr ⟨f, hf, Frame.runs_of_message hx⟩
  omega

/-- a message that is dispatched and waited for stays pending -/
theorem keeps (h : Waits s) (hm : Move Heeded E s s') (hp : s.pends m) (hd : s.dispatches m)
    (hw : s.awaited m) : s'.pends m := by
  obtain ⟨it, hit, hid⟩ := hp
  rcases hm.entry.kept hit with ⟨it', hit', hsame⟩ | ⟨why, es, -, -, hheed, hrel⟩ | ⟨hone, -⟩
  · exact ⟨it', hit', (fixed_postid hsame.1).symm.trans hid⟩
  · subst hid
    by_cases hr : why = .release
    · obtain ⟨f, hf, -⟩ := hd
      rw [(h.nesting.infos_nil _).mp (hrel hr)] at hf
      cases hf
    · by_cases hrep : why = .replace
      · exact absurd hd ((hheed hr).1 hrep).1
      · exact absurd hd ((hheed hr).2 hrep hw)
  · obtain ⟨f, hf, x, hx, hxid⟩ := hd
    have hself := h.single m _ _ (.running f hf x hx rfl hxid) (.pending it hit rfl hid)
    exact (h.alone hit hone hf hx hself).elim

theorem single_of (h : Waits s) {i : MessagePost_t}
    (hback : ∀ m a, Carries m a s' → (m ≠ i ∧ Carries m a s) ∨ (m = i ∧ a = s.next)) (m : MessagePost_t)
    (a b : Nat) (ha : Carries m a s') (hb : Carries m b s') : a = b := by
  rcases hback m a ha with ⟨-, ha⟩ | ⟨rfl, ha⟩
  · rcases hback m b hb with ⟨-, hb⟩ | ⟨rfl, hb⟩
    · exact h.single m a b ha hb
    · rcases hback _ a ‹_› with ⟨hne, -⟩ | ⟨-, ha⟩
      · exact absurd rfl hne
      · rw [ha, hb]
  · rcases hback m b hb with ⟨hne, -⟩ | ⟨-, hb⟩
    · exact absurd rfl hne
    · rw [ha, hb]

/-- **An id has one wrapper.** -/
theorem single_move (h : Waits s) (hm : Move Heeded E s s') (hn : s'.draws.Nodup) :
    ∀ m a b, Carries m a s' → Carries m b s' → a = b := by
  have hent := h.account.ordered.entries
  -- what a loop runs was run before, or is picked
  have hrun : ∀ {m a f w}, f ∈ s'.frames m.reg.queue → f.message = some w → w.self = a →
      w.postid = m → (s.dispatches m ∧ Carries m a s) ∨
        (s.pends m ∧ Carries m a s ∧ ∃ fit, s'.log = .pick w fit :: s.log) := by
    intro m a f w hf hw hself hid
    rcases hm.shift.running hf hw with ⟨f₀, hf₀, -, hw₀⟩ | ⟨it, hit, hsame, hl⟩
    · exact Or.inl ⟨⟨f₀, hf₀, w, hw₀, hid⟩, .running f₀ hf₀ w hw₀ hself hid⟩
    · have hid' := (fixed_postid hsame.1).trans hid
      exact Or.inr ⟨⟨it, hit, hid'⟩, .pending it hit ((fixed_self hsame.1).trans hself) hid', hl⟩
  -- a move that brings nothing in
  have hquiet : (∀ q, ∀ it ∈ s'.pending q, ∃ x ∈ s.pending q, x.Same it) →
      ∀ m a b, Carries m a s' → Carries m b s' → a = b := by
    intro hback m a b ha hb
    have hold : ∀ a, Carries m a s' → Carries m a s := by
      intro a hc
      cases hc with
      | pending it hit hself hid =>
        obtain ⟨x, hx, hsame⟩ := hback _ it hit
        exact .pending x hx ((fixed_self hsame.1).trans hself) ((fixed_postid hsame.1).trans hid)
      | running f hf w hw hself hid =>
        rcases hrun hf hw hself hid with ⟨-, hc⟩ | ⟨-, hc, -⟩
        · exact hc
        · exact hc
    exact h.single m a b (hold a ha) (hold b hb)
  cases hm.entry with
  | quiet hp =>
    refine hquiet (fun q it hit => ⟨it, ?_, .refl it⟩)
    rw [← hp]
    exact hit
  | delete q l₁ w l₂ why hl₀ hd hp | take q l₁ w l₂ fit hl₀ hno hone hp =>
    refine hquiet (fun p it hit => ⟨it, ?_, .refl it⟩)
    rcases mem_lists hp hit with hit | ⟨rfl, hit⟩
    · exact hit
    · exact Entries.mem_rest hl₀ hit
  | fire q l₁ w l₂ w' fit hl₀ hno hone hw' hp =>
    refine hquiet (fun p it hit => ?_)
    rcases mem_lists hp hit with hit | ⟨rfl, hit⟩
    · exact ⟨it, hit, .refl it⟩
    · rcases List.mem_append.mp hit with hit | hit
      · exact ⟨it, Entries.mem_rest hl₀ (List.mem_append_left _ hit), .refl it⟩
      · rcases List.mem_cons.mp hit with rfl | hit
        · exact ⟨w, Entries.mem_mid hl₀, hw'⟩
        · exact ⟨it, Entries.mem_rest hl₀ (List.mem_append_right _ hit), .refl it⟩
  | enqueue q w he hself hq hp hnx hl =>
    have hfresh : w.postid.seq ∉ s.draws := by
      have hdraws : s'.draws = w.postid.seq :: s.draws := by
        unfold State.draws
        rw [hl]
        rfl
      rw [hdraws] at hn
      exact (List.nodup_cons.mp hn).1
    have hother : ∀ {m a}, Carries m a s → m ≠ w.postid := by
      rintro m a hc rfl
      exact hfresh (h.carries_known hc)
    refine h.single_of (i := w.postid) (fun m a hc => ?_)
    cases hc with
    | pending it hit hs hid =>
      rcases mem_lists hp hit with hit | ⟨hqm, hit⟩
      · have hc : Carries m a s := .pending it hit hs hid
        exact Or.inl ⟨hother hc, hc⟩
      · rcases List.mem_append.mp hit with hit | hit
        · have hc : Carries m a s := .pending it (by rw [hqm]; exact hit) hs hid
          exact Or.inl ⟨hother hc, hc⟩
        · rw [List.mem_singleton.mp hit] at hs hid
          exact Or.inr ⟨hid.symm, hs.symm.trans hself⟩
    | running f hf x hx hs hid =>
      rcases hrun hf hx hs hid with ⟨-, hc⟩ | ⟨-, hc, -⟩
      · exact Or.inl ⟨hother hc, hc⟩
      · exact Or.inl ⟨hother hc, hc⟩
  | replace q l₁ w l₂ w' hl₀ hself hid' htitle hq hd hp hnx hl =>
    have hw : Carries w.postid w.self s := .pending w (by rw [hq]; exact Entries.mem_mid hl₀) rfl rfl
    refine h.single_of (i := w.postid) (fun m a hc => ?_)
    cases hc with
    | pending it hit hs hid =>
      rw [hp] at hit
      by_cases e : m.reg.queue = q
      · rw [e, Function.update_self] at hit
        rcases List.mem_append.mp hit with hit | hit
        · have hc : Carries m a s := .pending it (by rw [e]; exact Entries.mem_rest hl₀ hit) hs hid
          refine Or.inl ⟨?_, hc⟩
          rintro rfl
          exact hent.beside hl₀ hit (hs.trans (h.single _ _ _ hc hw))
        · rw [List.mem_singleton.mp hit] at hs hid
          exact Or.inr ⟨hid.symm.trans hid', hs.symm.trans hself⟩
      · rw [Function.update_of_ne e] at hit
        refine Or.inl ⟨?_, .pending it hit hs hid⟩
        rintro rfl
        exact e hq
    | running f hf x hx hs hid =>
      rcases hrun hf hx hs hid with ⟨hdisp, hc⟩ | ⟨-, -, fit, hl'⟩
      · refine Or.inl ⟨?_, hc⟩
        rintro rfl
        exact (hd.1 rfl).1 hdisp
      · rw [hl] at hl'
        cases hl'

theorem shown_move (h : Waits s) (hm : Move Heeded E s s') : ∀ q, ∀ i ∈ s'.infos q,
    i.runing_message_id = KNullPost ∨ i.runing_message_id.seq ∈ s'.draws := by
  intro q i hi
  rcases hm.shift.shown hi with ⟨j, hj, -, hid⟩ | ⟨-, hid⟩ | ⟨w, fit, it, -, -, hid, hit, hsame⟩
  · rw [← hid]
    exact (h.shown q j hj).imp id hm.draws.mono
  · exact Or.inl hid
  · rw [hid, ← fixed_postid hsame.1]
    exact Or.inr (hm.draws.mono (h.numbered.known _ (.pending q it hit rfl)))

theorem own_move (h : Waits s) (hm : Move Heeded E s s') :
    ∀ t m, s'.loopsFor t m → m.reg.queue = t ∧ m.seq ∈ s'.draws := by
  intro t m hl
  have hold : s.loopsFor t m → m.reg.queue = t ∧ m.seq ∈ s'.draws := by
    intro hl
    obtain ⟨hq, hd⟩ := h.own t m hl
    exact ⟨hq, hm.draws.mono hd⟩
  rcases hl with hk | ⟨f, hf, hb⟩
  · rcases hm.entering hk with hk | ⟨hT, -⟩
    · exact hold (Or.inl hk)
    · cases hT with
      | entering _ hb => rcases hb with hb | hb <;> cases hb
      | waiting _ it hc hq hit hid =>
        subst hq
        exact ⟨rfl, hm.draws.mono (h.known_pending ⟨it, hit, hid⟩)⟩
  · rcases hm.shift.breaker hf with ⟨f₀, hf₀, hb₀⟩ | hk
    · exact hold (Or.inr ⟨f₀, hf₀, hb₀.trans hb⟩)
    · rw [hb] at hk
      exact hold (Or.inl hk)

theorem keeps_below (h : Waits s) (hm : Move Heeded E s s') {g : Frame} (hl : s.loopsFor t m)
    (hg : g ∈ s.frames t) (hh : g.Holds m) (hp : s.pends m) : s'.pends m := by
  refine h.keeps hm hp ⟨g, ?_, hh⟩ ⟨t, Or.inr hl⟩
  rw [(h.own t m hl).1]
  exact hg

theorem enters_move (h : Waits s) (hm : Move Heeded E s s') :
    ∀ t m, s'.ctl t = .entering (.gone m) → ∀ g ∈ s'.frames t, g.Holds m → s'.pends m := by
  intro t m hk g hg hh
  rcases hm.entering hk with hk₀ | ⟨hT, hs⟩
  · rw [hm.shift.stay (by rw [hk₀]; exact fun e => by cases e) (by rw [hk]; exact fun e => by cases e)]
      at hg
    exact h.keeps_below hm (Or.inl hk₀) hg hh (h.enters t m hk₀ g hg hh)
  · cases hT with
    | entering _ hb => rcases hb with hb | hb <;> cases hb
    | waiting _ it hc hq hit hid =>
      subst hs
      subst hq
      exact ⟨it, hit, hid⟩

/-- **The loops of the waiting**: while a loop below holds the message, the message is pending. -/
theorem nested_move (h : Waits s) (hm : Move Heeded E s s') : ∀ t, (s'.frames t).Pairwise
    (fun f g => ∀ m, f.breaker_func_ = .gone m → g.Holds m → s'.pends m) := by
  -- the loops of `t` that were there before
  have hold : ∀ t, (s.frames t).Pairwise
      (fun f g => ∀ m, f.breaker_func_ = .gone m → g.Holds m → s'.pends m) := by
    intro t
    refine (h.nested t).imp_of_mem ?_
    intro f g hf hg hp m hb hh
    exact h.keeps_below hm (Or.inr ⟨f, hf, hb⟩) hg hh (hp m hb hh)
  have hother : ∀ {u : Thread} {l : List Frame}, s'.frames = Function.update s.frames u l →
      l.Pairwise (fun f g => ∀ m, f.breaker_func_ = .gone m → g.Holds m → s'.pends m) →
      ∀ t, (s'.frames t).Pairwise
        (fun f g => ∀ m, f.breaker_func_ = .gone m → g.Holds m → s'.pends m) := by
    intro u l hf hl t
    rw [hf]
    by_cases e : t = u
    · subst e
      rw [Function.update_self]
      exact hl
    · rw [Function.update_of_ne e]
      exact hold t
  -- the newest loop goes on, those below stay
  have htop : ∀ {u : Thread} {f : Frame} {rest : List Frame} (pc : Pc), s.frames u = f :: rest →
      ({ f with pc := pc } :: rest).Pairwise
        (fun f g => ∀ m, f.breaker_func_ = .gone m → g.Holds m → s'.pends m) := by
    intro u f rest pc hf₀
    have hu := hold u
    rw [hf₀] at hu
    obtain ⟨h1, h2⟩ := List.pairwise_cons.mp hu
    exact List.pairwise_cons.mpr ⟨h1, h2⟩
  cases hm.shift with
  | still hf | clear u f rest front info hf₀ hpc hi₀ hf =>
    rw [hf]
    exact hold
  | enter u b hk hf =>
    refine hother hf (List.pairwise_cons.mpr ⟨?_, hold u⟩)
    intro g hg m hb hh
    have hk' : s.ctl u = .entering (.gone m) := by
      rw [hk]
      exact congrArg Ctl.entering hb
    exact h.keeps_below hm (Or.inl hk') hg hh (h.enters u m hk' g hg hh)
  | pop u f rest front info hf₀ hpc hi₀ hf =>
    have hu := hold u
    rw [hf₀] at hu
    exact hother hf (List.pairwise_cons.mp hu).2
  | pick u f rest front info x d fit hf₀ hpc hi₀ hfit hd hx hf => exact hother hf (htop _ hf₀)
  | turn u f rest pc es hf₀ hpc hf => exact hother hf (htop _ hf₀)

theorem wrapper_move (h : Waits s) (hm : Move Heeded E s s') : ∀ t a m,
    s'.ctl t = .blocked (.wait_end a) false (.waitMessage m) → Held m a s' := by
  intro t a m hk
  rcases hm.asleep hk with hk₀ | ⟨hT, hs⟩
  · rcases (h.wrapper t a m hk₀).move h.account.ordered.entries h.account.served hm with hh | hrung
    · exact hh
    · obtain ⟨b, -, hb⟩ := notify_blocked ((hrung t).symm.trans hk)
      rw [beq_self_eq_true, Bool.or_true] at hb
      cases hb
  · subst hs
    cases hT with
    | pending _ it hc hit hid => exact .pending it hit rfl hid

theorem loop_move (h : Waits s) (hm : Move Heeded E s s') (hn : s'.draws.Nodup) : ∀ t a m,
    s'.ctl t = .blocked (.runing a) false (.waitMessage m) → Sleeps m a s' := by
  intro t a m hk
  rcases hm.asleep hk with hk₀ | ⟨hT, hs⟩
  · exact (h.loop t a m hk₀).move hm hn
  · subst hs
    cases hT with
    | runing _ v hc hnp hv =>
      have hmem := List.mem_of_find?_eq_some hv
      have hid : m = v.runing_message_id := by
        have := List.find?_some hv
        exact eq_of_beq this
      refine ⟨?_, ?_, h.nesting.below _ v hmem, fun u i hi ha => h.nesting.apart u _ i hi v hmem ha,
        ?_⟩
      · rcases h.shown _ v hmem with hnull | hd
        · rw [hid, hnull] at hmem
          unfold State.infos at hmem
          rw [show KNullPost.reg.queue = 0 from rfl, h.zero] at hmem
          cases hmem
        · rw [hid]
          exact hd
      · rintro ⟨it, hit, he⟩
        exact hnp it hit he
      · rintro f hf ⟨w, hw, hwid⟩
        obtain ⟨i, hi, hmatch⟩ := h.nesting.entry hf
        rw [← hmatch.1]
        refine h.nesting.outermost hv hi ?_
        rw [(hmatch.shows hw).2, hwid]
        exact beq_self_eq_true m

theorem held_id (h : Waits s) {w : MessageWrapper} (hh : Held m w.self s)
    (hw : ∃ w₀, .enqueue w₀ ∈ s.log ∧ w₀.Same w) : w.postid = m := by
  have hent := h.account.ordered.entries
  cases hh with
  | pending it hit hself hid =>
    rw [← hid]
    exact (fixed_postid (hent.fixed_of_self (hent.came _ it hit) hw hself)).symm
  | running f hf x hx hself hid =>
    rw [← hid]
    exact (fixed_postid (hent.fixed_of_self (h.came _ f hf x hx) hw hself)).symm

theorem past_delete (h : Waits s) (hm : Move Heeded E s s') {q : MessageQueue_t}
    {l₁ l₂ : List MessageWrapper} {w : MessageWrapper} {why : Why}
    (hl₀ : s.pending q = l₁ ++ w :: l₂) (hd : why ≠ .release → Heeded s w why)
    (hr : why = .release → s.infos q = []) (hf : s'.frames = s.frames)
    (hp : s'.pending = Function.update s.pending q (l₁ ++ l₂)) (hid : w.postid = m)
    (hw : s.awaited m) : Past m s' := by
  have hent := h.account.ordered.entries
  have hmem := Entries.mem_mid hl₀
  have hq : m.reg.queue = q := by
    rw [← hid]
    exact hent.home q w hmem
  refine ⟨hm.draws.mono (h.known_pending ⟨w, by rw [hq]; exact hmem, hid⟩), ?_, ?_⟩
  · rintro ⟨it, hit, hitid⟩
    rw [hp, hq, Function.update_self] at hit
    refine hent.beside hl₀ hit (h.single m _ _ (.pending it ?_ rfl hitid) (.pending w ?_ rfl hid))
    · rw [hq]
      exact Entries.mem_rest hl₀ hit
    · rw [hq]
      exact hmem
  · intro hdisp
    have hdisp : s.dispatches m := by
      obtain ⟨f, hf', hh⟩ := hdisp
      rw [hf] at hf'
      exact ⟨f, hf', hh⟩
    subst hid
    by_cases hrel : why = .release
    · obtain ⟨f, hf', -⟩ := hdisp
      rw [hq, (h.nesting.infos_nil q).mp (hr hrel)] at hf'
      cases hf'
    · by_cases hrep : why = .replace
      · exact ((hd hrel).1 hrep).1 hdisp
      · exact (hd hrel).2 hrep hw hdisp

theorem runs_once (h : Waits s) {w : MessageWrapper} (hone : w.oneShot = true)
    (hw : .enqueue w ∈ s.log) : (s.frames w.postid.reg.queue).countP (Frame.runs w) ≤ 1 := by
  have hbal := h.account.balance hw hone
  have hheld := h.account.served.held w hone
  omega

theorem past_finish (h : Waits s) (hm : Move Heeded E s s') {f : Frame} {rest : List Frame}
    {w : MessageWrapper} (hf₀ : s.frames t = f :: rest) (hpc : f.pc = .dispatch w true none [])
    (hf : s'.frames = Function.update s.frames t ({ f with pc := .head } :: rest))
    (hp : s'.pending = s.pending) (hid : w.postid = m) : Past m s' := by
  have hent := h.account.ordered.entries
  have hmem : f ∈ s.frames t := by
    rw [hf₀]
    exact List.mem_cons_self
  have hmsg : f.message = some w := by
    unfold Frame.message
    rw [hpc]
  obtain ⟨hq, hd⟩ := h.account.served.home t f hmem w true none [] hpc
  have hone : w.oneShot = true := hd.symm
  rw [hid] at hq
  subst hq
  have hcarry : Carries m w.self s := .running f hmem w hmsg rfl hid
  obtain ⟨w₀, h0, hsame⟩ := h.came _ f hmem w hmsg
  have heq : w₀ = w := hsame.2 ((fixed_oneShot hsame.1).trans hone)
  subst heq
  refine ⟨hm.draws.mono (h.carries_known hcarry), ?_, ?_⟩
  · rintro ⟨it, hit, hitid⟩
    rw [hp] at hit
    have hself := h.single m _ _ hcarry (.pending it hit rfl hitid)
    have hfixed := hent.fixed_of_self (hent.came _ it hit) (h.came _ f hmem w₀ hmsg) hself.symm
    exact h.alone hit ((fixed_oneShot hfixed).trans hone) hmem hmsg hself
  · rintro ⟨g, hg, x, hx, hxid⟩
    rw [hf, Function.update_self] at hg
    rcases List.mem_cons.mp hg with rfl | hg
    · exact holds_head rfl ⟨x, hx, hxid⟩
    · -- another loop below would be the second that runs it
      have hg' : g ∈ s.frames m.reg.queue := by
        rw [hf₀]
        exact List.mem_cons_of_mem _ hg
      have hself := h.single m _ _ (.running g hg' x hx rfl hxid) hcarry
      have hxw : x = w₀ := alike hent h0 hone (h.came _ g hg' x hx)
        (hent.fixed_of_self (h.came _ g hg' x hx) ⟨w₀, h0, .refl w₀⟩ hself)
      subst hxw
      have hle := h.runs_once hone h0
      rw [hid, hf₀, List.countP_cons_of_pos (Frame.runs_of_message hmsg)] at hle
      have hpos : 0 < rest.countP (Frame.runs x) :=
        List.countP_pos_iff.mpr ⟨g, hg, Frame.runs_of_message hx⟩
      omega

theorem woken_move (h : Waits s) (hm : Move Heeded E s s') (hn : s'.draws.Nodup) :
    ∀ t c m, s'.ctl t = .blocked c true (.waitMessage m) → Past m s' := by
  intro t c m hk
  rcases hm.awake hk with hk₀ | ⟨hkb, hr⟩
  · exact (h.woken t c m hk₀).move hm hn
  · have hent := h.account.ordered.entries
    cases hr with
    | clear u f rest front info hf₀ hpc hi₀ =>
      exact ((h.loop t _ m hkb).past h.nesting hf₀ hpc hi₀ rfl).move hm hn
    | replace q w hw hd => exact absurd hkb ((hd.1 rfl).2 t m)
    | delete q l₁ w l₂ why hl₀ hd hrel hf hp =>
      have hid := h.held_id (h.wrapper t _ m hkb) (hent.came q w (Entries.mem_mid hl₀))
      exact h.past_delete hm hl₀ hd hrel hf hp hid ⟨t, Or.inl ⟨_, _, hkb⟩⟩
    | finish u f rest w hf₀ hpc hf hp =>
      have hid := h.held_id (h.wrapper t _ m hkb) (h.came u f (by rw [hf₀]; exact List.mem_cons_self)
        w (by unfold Frame.message; rw [hpc]))
      exact h.past_finish hm hf₀ hpc hf hp hid

theorem ran_move (h : Waits s) (hm : Move Heeded E s s') (hE : ¬ E .cut) (hn : s'.draws.Nodup) :
    ∀ t m, s'.ctl t = .ran m → Past m s' := by
  intro t m hk
  have hnotify : ∀ {c : Cond}, (s.ctl t).notify c = .ran m → s.ctl t = .ran m := by
    intro c hc
    cases hk₀ : s.ctl t with
    | blocked c' b x =>
      rw [hk₀] at hc
      cases hc
    | _ =>
      rw [hk₀] at hc
      exact hc
  cases hm.place t with
  | same hk' => exact (h.ran t m (hk'.symm.trans hk)).move hm hn
  | rung c hr hk' => exact (h.ran t m (hnotify (hk'.symm.trans hk))).move hm hn
  | ran m' f rest hk₀ hk' hf₀ hb hpc hf hp hcut =>
    rw [hk'] at hk
    cases hk
    obtain ⟨hq, hd⟩ := h.own t m (Or.inr ⟨f, by rw [hf₀]; exact List.mem_cons_self, hb⟩)
    subst hq
    have hnp : ¬ s.pends m := by
      rintro ⟨it, hit, hid⟩
      rcases hcut with hno | hcut
      · exact hno it hit hid
      · exact hE hcut
    refine ⟨hm.draws.mono hd, ?_, ?_⟩
    · rintro ⟨it, hit, hid⟩
      rw [hp] at hit
      exact hnp ⟨it, hit, hid⟩
    · rintro ⟨g, hg, hh⟩
      rw [hf, Function.update_self] at hg
      have hnest := h.nested m.reg.queue
      rw [hf₀] at hnest
      exact hnp ((List.pairwise_cons.mp hnest).1 g hg m hb hh)
  | enter b hk₀ hk' =>
    rw [hk'] at hk
    cases hk
  | turn k hT hs =>
    subst hs
    rw [setCtl_self] at hk
    subst hk
    cases hT
  | come e hC hs =>
    rw [hs, show ((s.setCtl t .free).emit e).ctl t = .free from setCtl_self .free s] at hk
    cases hk

theorem init : Waits init where
  zero := rfl
  account := ⟨Fifo.init, fun _ => Balanced.init, Served.init⟩
  nesting := Nesting.init
  numbered := Numbered.init
  came _ _ h := by cases h
  shown _ _ h := by cases h
  single _ _ _ h := by
    cases h with
    | pending it hit => cases hit
    | running f hf => cases hf
  own _ _ h := by
    rcases h with h | ⟨f, hf, -⟩
    · cases h
    · cases hf
  enters _ _ h := by cases h
  nested _ := List.Pairwise.nil
  wrapper _ _ _ h := by cases h
  loop _ _ _ h := by cases h
  woken _ _ _ h := by cases h
  ran _ _ h := by cases h

/-- **What is known of those who wait is kept**, by moves that heed them. -/
theorem move (h : Waits s) (hm : Move Heeded E s s') (hE : ¬ E .cut) (hn : s'.draws.Nodup) :
    Waits s' where
  zero := hm.map_zero h.zero
  account := h.account.move hm
  nesting := h.nesting.step hm.shift
  numbered := h.numbered.move hm
  came := hm.came h.account.ordered.entries h.came
  shown := h.shown_move hm
  single := h.single_move hm hn
  own := h.own_move hm
  enters := h.enters_move hm
  nested := h.nested_move hm
  wrapper := h.wrapper_move hm
  loop := h.loop_move hm hn
  woken := h.woken_move hm hn
  ran := h.ran_move hm hE hn

end Waits

/-! ## the runs that heed them -/

theorem still_entering {k : Ctl} {b : Breaker} (h : k.still = .entering b) : k = .entering b := by
  cases k with
  | blocked c b' x => cases h
  | _ => exact h

theorem still_blocked {k : Ctl} {c : Cond} {x : Waiter} (h : k.still = .blocked c false x) :
    ∃ b, k = .blocked c b x := by
  cases k with
  | blocked c' b x' =>
    cases h
    exact ⟨b, rfl⟩
  | _ => cases h

/-- what is asked of a message to be deleted is asked of the loops and the places of the threads -/
theorem Heeded.loops {u v : State} {w : MessageWrapper} {why : Why} (h : Heeded u w why)
    (hv : v.loops = u.loops) (hk : why = .replace → v.ctl = u.ctl) : Heeded v w why := by
  have hf : v.frames = u.frames := congrArg (·.1) hv
  have hstill : ∀ t, (v.ctl t).still = (u.ctl t).still := fun t => congrFun (congrArg (·.2.2) hv) t
  have hdisp : v.dispatches w.postid → u.dispatches w.postid := by
    rintro ⟨f, hmem, hh⟩
    rw [hf] at hmem
    exact ⟨f, hmem, hh⟩
  have hwait : v.awaited w.postid → u.awaited w.postid := by
    rintro ⟨t, ⟨c, b, hb⟩ | hb | ⟨f, hmem, hb⟩⟩
    · have hs := hstill t
      rw [hb] at hs
      obtain ⟨b', hb'⟩ := still_blocked hs.symm
      exact ⟨t, Or.inl ⟨c, b', hb'⟩⟩
    · have hs := hstill t
      rw [hb] at hs
      exact ⟨t, Or.inr (Or.inl (still_entering hs.symm))⟩
    · rw [hf] at hmem
      exact ⟨t, Or.inr (Or.inr ⟨f, hmem, hb⟩)⟩
  refine ⟨fun hw => ⟨fun hd => (h.1 hw).1 (hdisp hd), fun t m => ?_⟩, fun hw ha hd => ?_⟩
  · rw [hk hw]
    exact (h.1 hw).2 t m
  · exact h.2 hw (hwait ha) (hdisp hd)

theorem run_waits (hr : Runs.Run step Heeds init s) (hn : s.draws.Nodup) : Waits s := by
  refine (keep_run (D := Heeded) (E := (· ≠ .cut)) (P := fun u => u.draws.Nodup → Waits u) hr rfl ?_
    (fun e => by cases e) ?_ (fun _ _ _ _ _ _ e => by cases e) ?_ (fun _ => Waits.init)).1 hn
  · exact fun u x _ hc w hw v hv hk => (hc.2.1 w hw).loops hv hk
  · exact fun u x hc hcut => absurd hcut hc.1
  · exact fun u v hu hm hv => (hu (hm.draws.nodup hv)).move hm (fun e => e rfl) hv

/-- where a thread comes back from `WaitMessage` the message is gone -/
theorem Waits.back (h : Waits s) (hc : Comes E s t (.waited t m))
    (hE : ¬ E (.early t (.waitMessage m))) : ¬ s.pends m ∧ ¬ s.dispatches m := by
  cases hc with
  | gone _ hk hnp hv =>
    refine ⟨?_, ?_⟩
    · rintro ⟨it, hit, hid⟩
      exact hnp it hit hid
    · rintro ⟨f, hf, w, hw, hid⟩
      obtain ⟨i, hi, hmatch⟩ := h.nesting.entry hf
      exact hv i hi (hid.symm.trans (hmatch.shows hw).2.symm)
  | ran _ hk => exact ⟨(h.ran t m hk).unlisted, (h.ran t m hk).done⟩
  | woken _ c b hk he =>
    rcases he with rfl | he
    · exact ⟨(h.woken t c m hk).unlisted, (h.woken t c m hk).done⟩
    · exact absurd he hE

/-- **`WaitMessage` returns when the message is gone**: no entry has the id and no loop dispatches
it, in a run in which no step deletes, replaces or breaks off what is waited for, and no thread in
`WaitMessage` wakes up without a notify. -/
theorem wait_message (hr : Runs.Run step Heeds init s) {x : Act} (hx : Heeds s x)
    (hs : step s x = some s')
    {es : List Event} (hl : s'.log = es ++ s.log) (hw : .waited t m ∈ es) (hn : s'.draws.Nodup) :
    ¬ s'.pends m ∧ ¬ s'.dispatches m := by
  have h0 : s.map 0 = none := Reachable.map_zero hr.any
  rcases step_loud (E := fun g => ∃ u y, g = .early u y ∧ x.early s u y) h0 hs
    (fun u y hy => ⟨u, y, rfl, hy⟩) hl hw rfl with ⟨u, hC, rfl⟩ | ⟨u, n, he, -⟩ | ⟨u, w, d, lst, he, -⟩
  · have hu : u = t := by
      cases hC with
      | gone | ran | woken => rfl
    subst hu
    refine (run_waits hr hn).back hC ?_
    rintro ⟨v, y, he, hy⟩
    cases he
    exact hx.2.2 _ m hy
  · cases he
  · cases he

def waitedFor : List Act :=
  [.call 7 (.createMessageQueueInfo 7), .call 7 (.installMessageHandler 1 false 7),
    .call 8 (.postMessage ⟨7, 2⟩ ⟨1, none⟩ ⟨.kImmediately, 0, 0⟩), .waitMessage 9 ⟨⟨7, 2⟩, 3⟩,
    .run 7 false, .enter 7]

theorem wait_message_dispatched : ∃ s s' : State, s'.log = .waited 9 ⟨⟨7, 2⟩, 3⟩ :: s.log ∧
    ¬ s'.pends ⟨⟨7, 2⟩, 3⟩ ∧ ¬ s'.dispatches ⟨⟨7, 2⟩, 3⟩ := by
  have hruns : ∃ s₁ s₂ s₃ s₄, Runs.exec step init waitedFor = some s₁ ∧
      s₁.frames 7 = [⟨2, .none, .head⟩] ∧ step s₁ (.loop 7 false) = some s₂ ∧
      Runs.exec step s₂ [.callHandler 7, .handlerReturn 7, .finish 7] = some s₃ ∧
      step s₃ (.resume 9 true) = some s₄ ∧ s₄.log = .waited 9 ⟨⟨7, 2⟩, 3⟩ :: s₃.log ∧
      s₄.draws.Nodup := by
    refine ⟨_, _, _, _, rfl, rfl, rfl, rfl, rfl, rfl, ?_⟩
    decide
  obtain ⟨s₁, s₂, s₃, s₄, h₁, hf, h₂, h₃, h₄, hl, hn⟩ := hruns
  -- these calls delete nothing, and no loop of a `WaitMessage` is there
  have hheed : ∀ a : Act, (∀ t, a.victims t = []) → (∀ t, ¬ a.cuts t) →
      (∀ t u x, ¬ a.early t u x) → ∀ t, Heeds t a := by
    intro a hv hc he t
    refine ⟨hc t, fun w hw => ?_, fun u m => he t u _⟩
    rw [hv] at hw
    cases hw
  have hr₁ : Runs.Run step Heeds init s₁ := by
    refine Runs.Run.of_exec_all h₁ (fun a ha => ?_)
    unfold waitedFor at ha
    simp only [List.mem_cons, List.not_mem_nil, or_false] at ha
    rcases ha with rfl | rfl | rfl | rfl | rfl | rfl
    all_goals exact hheed _ (fun _ => rfl) (fun _ h => h) (fun _ _ _ h => h)
  have hloop : Heeds s₁ (.loop 7 false) := by
    refine ⟨?_, (fun w hw => by cases hw), fun _ _ h => h⟩
    rintro ⟨f, rest, c, m, it, hf', hb, -⟩
    rw [hf] at hf'
    cases hf'
    cases hb
  have hr₃ : Runs.Run step Heeds s₂ s₃ := by
    refine Runs.Run.of_exec_all h₃ (fun a ha => ?_)
    simp only [List.mem_cons, List.not_mem_nil, or_false] at ha
    rcases ha with rfl | rfl | rfl
    all_goals exact hheed _ (fun _ => rfl) (fun _ h => h) (fun _ _ _ h => h)
  have hr : Runs.Run step Heeds init s₃ := (hr₁.tail ⟨_, hloop, h₂⟩).trans hr₃
  have hback : Heeds s₃ (.resume 9 true) :=
    hheed (.resume 9 true) (fun _ => rfl) (fun _ h => h) (fun _ _ _ h => Bool.noConfusion h.2.1) s₃
  exact ⟨s₃, s₄, hl, wait_message hr hback h₄
    (show s₄.log = [.waited 9 ⟨⟨7, 2⟩, 3⟩] ++ s₃.log from hl) List.mem_cons_self hn⟩

/-- the message that the thread 8 waits for is replaced, and the thread is woken -/
theorem wait_message_replaced : ¬ ∀ s s' a (es : List Event) t m, Reachable s →
    step s a = some s' → s'.log = es ++ s.log → .waited t m ∈ es →
      ¬ s'.pends m ∧ ¬ s'.dispatches m := by
  intro hall
  have hruns : ∃ s s', Runs.exec step init
      [.call 7 (.createMessageQueueInfo 7),
        .call 9 (.postMessage ⟨7, 2⟩ ⟨1, none⟩ ⟨.kAfter, 2000, 0⟩), .waitMessage 8 ⟨⟨7, 2⟩, 2⟩,
        .call 9 (.singletonMessage true ⟨7, 2⟩ ⟨1, none⟩ ⟨.kAfter, 2000, 0⟩)] = some s ∧
      step s (.resume 8 true) = some s' ∧ s'.log = [.waited 8 ⟨⟨7, 2⟩, 2⟩] ++ s.log ∧
      (s'.pending 7).any (fun it => it.postid == ⟨⟨7, 2⟩, 2⟩) = true :=
    ⟨_, _, rfl, rfl, rfl, rfl⟩
  obtain ⟨s, s', hs, hstep, hl, hp⟩ := hruns
  obtain ⟨it, hit, hid⟩ := List.any_eq_true.mp hp
  exact (hall s s' _ _ 8 _ (Runs.Run.of_exec hs) hstep hl List.mem_cons_self).1
    ⟨it, hit, eq_of_beq hid⟩

end MessageQueue
