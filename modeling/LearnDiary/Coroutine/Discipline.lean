import LearnDiary.Lib.Runs
import Mathlib.Data.List.Nodup
import Mathlib.Logic.Function.Basic

/-!
# Who resumes a coroutine (comm/coroutine/coroutine.h)

A coroutine is resumed by messages to its handler, whose queue is `home`; the thread of a queue has a
stack of run loops and of what their handlers do.  The function of a message, a coroutine's body among
them, may start a run loop of its own, and `Join` does.  A message is taken out at any time after it
is posted, as its delay and the other messages let it.

What is left of `Join` on another thread, after its message was handled, is `WaitMessage`.

* `Disciplined`       when a message is posted, a run loop started and a coroutine finishes;
* `Tidy`              what such steps keep of a queue and its coroutines;
* `resume_sound`      then only waiting coroutines are resumed, and `Join` ends behind its coroutine;
* `resume_finished`   a message that is left when the coroutine finishes.
-/

namespace Coroutine.Discipline
open Runs

/-- not running and not finished, running, finished (`!push_obj_`) -/
inductive Status where
  | ready
  | running
  | finished
deriving DecidableEq

/-- the message of `Resume`, that of a `Join` from another thread, any other -/
inductive Msg where
  | resume (co : Nat)
  | join (co : Nat)
  | plain
deriving DecidableEq

/-- a run loop; the run loop of a `Join`, and that `Join` behind it; a message taken out; the body of
a coroutine, where `posted` says that it is in `Wait` and its `Yield` comes next; other code -/
inductive Frame where
  | loop
  | join (co : Nat)
  | joined (co : Nat)
  | hand (m : Msg)
  | body (co : Nat) (posted : Bool)
  | plain
deriving DecidableEq

/-- the history: `push_obj_` with the coroutine as it was, and the end of a `Join` -/
inductive Mark where
  | pushed (co : Nat) (status : Status)
  | joined (co : Nat) (status : Status)
deriving DecidableEq

structure Queue where
  stack : List Frame := [.loop]
  mail : List Msg := []
deriving DecidableEq

structure State where
  queue : Nat → Queue := fun _ => {}
  status : Nat → Status := fun _ => .ready
  log : List Mark := []

/-- the steps from anywhere, and those of the thread of queue `q`; `Start` is `resume`, `Notify` is
`cancel` and `resume` -/
inductive Act where
  | resume (co : Nat)
  | cancel (co : Nat)
  | join (co : Nat)
  | post (q : Nat)
  | pick (q : Nat) (m : Msg)
  | run (q : Nat)
  | enter (q : Nat)
  | joinHere (q co : Nat)
  | exit (q : Nat)
  | joined (q : Nat)
  | wait (q : Nat)
  | yield (q : Nat)
  | finish (q : Nat)
  | done (q : Nat)

namespace State

def setQueue (s : State) (q : Nat) (Q : Queue) : State :=
  { s with queue := Function.update s.queue q Q }

def setStack (s : State) (q : Nat) (stack : List Frame) : State :=
  s.setQueue q { s.queue q with stack }

def setMail (s : State) (q : Nat) (mail : List Msg) : State := s.setQueue q { s.queue q with mail }

def setStatus (s : State) (co : Nat) (status : Status) : State :=
  { s with status := Function.update s.status co status }

def mark (s : State) (m : Mark) : State := { s with log := s.log ++ [m] }

def post (s : State) (q : Nat) (m : Msg) : State := s.setMail q ((s.queue q).mail ++ [m])

/-- `mq::CancelMessage` with the coroutine as title -/
def cancelTitle (s : State) (q co : Nat) : State :=
  s.setMail q ((s.queue q).mail.filter (· ≠ .resume co))

/-- a step of what stands at the top of the stack -/
def onTop (s : State) (q : Nat) (g : Frame → List Frame → Option State) : Option State :=
  match (s.queue q).stack with
  | f :: rest => g f rest
  | [] => none

/-- a frame that a loop is taking messages for: the breaker of `Join` waits for the end -/
def loops (s : State) : Frame → Bool
  | .loop => true
  | .join co => s.status co != .finished
  | _ => false

end State

def Frame.code : Frame → Bool
  | .body _ posted => !posted
  | .plain => true
  | _ => false

variable (home : Nat → Nat)

def step (s : State) : Act → Option State
  | .resume co => some (s.post (home co) (.resume co))
  | .cancel co => some (s.cancelTitle (home co) co)
  | .join co => some (s.post (home co) (.join co))
  | .post q => some (s.post q .plain)
  | .pick q m => s.onTop q fun f rest =>
    if s.loops f ∧ m ∈ (s.queue q).mail then
      some (s.setQueue q ⟨.hand m :: f :: rest, (s.queue q).mail.erase m⟩)
    else none
  | .run q => s.onTop q fun
    | .hand .plain, rest => some (s.setStack q (.plain :: rest))
    | .hand (.join co), rest => some (s.setStack q (.join co :: rest))
    | .hand (.resume co), rest =>
      let t := s.mark (.pushed co (s.status co))
      if s.status co = .ready then some ((t.setStack q (.body co false :: rest)).setStatus co .running)
      else some (t.setStack q rest)
    | _, _ => none
  | .enter q => s.onTop q fun f rest =>
    if f.code then some (s.setStack q (.loop :: f :: rest)) else none
  | .joinHere q co => s.onTop q fun f rest =>
    if f.code ∧ home co = q then some (s.setStack q (.join co :: f :: rest)) else none
  | .exit q => s.onTop q fun
    | .loop, rest => some (s.setStack q rest)
    | .join co, rest =>
      if s.status co = .finished then some (s.setStack q (.joined co :: rest)) else none
    | _, _ => none
  | .joined q => s.onTop q fun
    | .joined co, rest =>
      some (((s.cancelTitle (home co) co).setStack q rest).mark (.joined co (s.status co)))
    | _, _ => none
  | .wait q => s.onTop q fun
    | .body co false, rest =>
      some ((s.post (home co) (.resume co)).setStack q (.body co true :: rest))
    | _, _ => none
  | .yield q => s.onTop q fun
    | .body co _, rest => some ((s.setStack q rest).setStatus co .ready)
    | _, _ => none
  | .finish q => s.onTop q fun
    | .body co false, rest => some ((s.setStack q rest).setStatus co .finished)
    | _, _ => none
  | .done q => s.onTop q fun
    | .plain, rest => some (s.setStack q rest)
    | _, _ => none

/-- only waiting coroutines are resumed, and a `Join` ends when its coroutine has finished -/
structure Sound (s : State) : Prop where
  pushed : ∀ co status, .pushed co status ∈ s.log → status = .ready
  joined : ∀ co status, .joined co status ∈ s.log → status = .finished

/-- the coroutines whose bodies are on a stack -/
def bodies (stack : List Frame) : List Nat :=
  stack.filterMap fun
    | .body co _ => some co
    | _ => none

/-- the coroutine is in a run loop that its body has started -/
def Nested (s : State) (co : Nat) : Prop := co ∈ bodies (s.queue (home co)).stack.tail

/-- the body at the top of queue `q` has no resume message pending -/
def Unsent (s : State) (q : Nat) : Prop :=
  ∀ co posted rest, (s.queue q).stack = .body co posted :: rest → .resume co ∉ (s.queue q).mail

/-- the run loop of its `Join` runs the body at the top of queue `q` -/
def JoinBelow (s : State) (q : Nat) : Prop :=
  ∃ co posted rest, (s.queue q).stack = .body co posted :: .join co :: rest

/-- a coroutine gets no message by `Start` and `Notify` when it has finished or is in a run loop that
its body has started; it starts one, or finishes, with none pending, but for a finish in the loop of
its `Join` -/
def Disciplined (s : State) : Act → Prop
  | .resume co => s.status co ≠ .finished ∧ ¬ Nested home s co
  | .enter q | .joinHere q _ => Unsent s q
  | .finish q => Unsent s q ∨ JoinBelow s q
  | _ => True

/-! ## what is known of a queue -/

/-- the bodies on the stack are those of the running coroutines, a message taken out is at the top and
finds its coroutine ready; no resume message is pending for a coroutine in a run loop of its own, nor
for a finished one, unless the loop of its `Join` is at the top -/
structure Tidy (status : Nat → Status) (q : Nat) (Q : Queue) : Prop where
  body : ∀ co ∈ bodies Q.stack, home co = q ∧ status co = .running
  nodup : (bodies Q.stack).Nodup
  running : ∀ co, home co = q → status co = .running → co ∈ bodies Q.stack
  mail : ∀ co, .resume co ∈ Q.mail → home co = q
  hand : ∀ co, .hand (.resume co) ∈ Q.stack → home co = q ∧ status co = .ready
  top : ∀ m, .hand m ∉ Q.stack.tail
  nested : ∀ co ∈ bodies Q.stack.tail, .resume co ∉ Q.mail
  finished : ∀ co, home co = q → status co = .finished → .resume co ∉ Q.mail ∨
    Q.stack.head? = some (.join co) ∨ Q.stack.head? = some (.joined co)
  joined : ∀ co, .joined co ∈ Q.stack → status co = .finished

structure Inv (s : State) : Prop where
  tidy : ∀ q, Tidy home s.status q (s.queue q)
  sound : Sound s

section
variable {home} {s s' : State} {status status' : Nat → Status} {q co : Nat} {Q : Queue} {f : Frame}
  {rest : List Frame} {mail : List Msg} {m : Msg} {posted : Bool}

theorem Tidy.congr (h : Tidy home status q Q) (hst : ∀ co, home co = q → status' co = status co)
    (hfin : ∀ co, status co = .finished → status' co = .finished) : Tidy home status' q Q := by
  refine ⟨fun co hco => ?_, h.nodup, fun co hco hr => ?_, h.mail, fun co hco => ?_, h.top, h.nested,
    fun co hco hf => ?_, fun co hco => hfin co (h.joined co hco)⟩
  · obtain ⟨hq, hr⟩ := h.body co hco
    exact ⟨hq, (hst co hq).trans hr⟩
  · exact h.running co hco ((hst co hco).symm.trans hr)
  · obtain ⟨hq, hr⟩ := h.hand co hco
    exact ⟨hq, (hst co hq).trans hr⟩
  · exact h.finished co hco ((hst co hco).symm.trans hf)

theorem tidy_set (h : ∀ q, Tidy home s.status q (s.queue q)) (hQ : Tidy home status' q Q)
    (hst : ∀ co, home co ≠ q → status' co = s.status co)
    (hfin : ∀ co, s.status co = .finished → status' co = .finished) (j : Nat) :
    Tidy home status' j (Function.update s.queue q Q j) := by
  by_cases hj : j = q
  · subst hj
    rw [Function.update_self]
    exact hQ
  · rw [Function.update_of_ne hj]
    exact (h j).congr (fun co hco => hst co (fun hq => hj (hco.symm.trans hq))) hfin

theorem Inv.setQueue (h : Inv home s) (hQ : Tidy home s.status q Q) : Inv home (s.setQueue q Q) :=
  ⟨tidy_set h.tidy hQ (fun _ _ => rfl) (fun _ hf => hf),
    h.sound.pushed, h.sound.joined⟩

theorem Tidy.of_mem (h : Tidy home status q Q) (hsub : ∀ co, .resume co ∈ mail → .resume co ∈ Q.mail) :
    Tidy home status q { Q with mail } := by
  refine ⟨h.body, h.nodup, h.running, fun co hco => h.mail co (hsub co hco), h.hand, h.top,
    fun co hco hm => h.nested co hco (hsub co hm), fun co hco hf => ?_, h.joined⟩
  obtain hn | hj := h.finished co hco hf
  · exact Or.inl (fun hm => hn (hsub co hm))
  · exact Or.inr hj

theorem Inv.post_other (h : Inv home s) (hm : ∀ co, m ≠ .resume co) (q : Nat) :
    Inv home (s.post q m) := by
  refine h.setQueue ((h.tidy q).of_mem (fun co hco => ?_))
  rcases List.mem_append.mp hco with hco | hco
  · exact hco
  · exact absurd (List.mem_singleton.mp hco).symm (hm co)

theorem Inv.cancelTitle (h : Inv home s) (q co : Nat) : Inv home (s.cancelTitle q co) :=
  h.setQueue ((h.tidy q).of_mem (fun _ hco => (List.mem_filter.mp hco).1))

theorem Inv.resume (h : Inv home s) (hst : s.status co ≠ .finished) (hn : ¬ Nested home s co) :
    Inv home (s.post (home co) (.resume co)) := by
  have ht := h.tidy (home co)
  have hmem : ∀ d, .resume d ∈ (s.queue (home co)).mail ++ [.resume co] →
      .resume d ∈ (s.queue (home co)).mail ∨ d = co := by
    intro d hd
    rcases List.mem_append.mp hd with hd | hd
    · exact Or.inl hd
    · exact Or.inr (Msg.resume.inj (List.mem_singleton.mp hd))
  refine h.setQueue ⟨ht.body, ht.nodup, ht.running, fun d hd => ?_, ht.hand, ht.top, fun d hd hm => ?_,
    fun d hd hf => ?_, ht.joined⟩
  · obtain hd | rfl := hmem d hd
    · exact ht.mail d hd
    · rfl
  · obtain hm | rfl := hmem d hm
    · exact ht.nested d hd hm
    · exact hn hd
  · obtain hno | hj := ht.finished d hd hf
    · refine Or.inl (fun hm => ?_)
      obtain hm | rfl := hmem d hm
      · exact hno hm
      · exact hst hf
    · exact Or.inr hj

theorem Tidy.pick (h : Tidy home s.status q ⟨f :: rest, mail⟩) (hf : s.loops f = true) (hm : m ∈ mail) :
    Tidy home s.status q ⟨.hand m :: f :: rest, mail.erase m⟩ := by
  have hbodies : bodies (f :: rest) = bodies rest := by
    cases f <;> first | rfl | cases hf
  have hsub : ∀ x, x ∈ mail.erase m → x ∈ mail := fun x hx => List.mem_of_mem_erase hx
  have hnohand : ∀ m', .hand m' ∉ f :: rest := by
    intro m' hm'
    obtain rfl | hm' := List.mem_cons.mp hm'
    · cases hf
    · exact h.top m' hm'
  have hfin : ∀ co, home co = q → s.status co = .finished → .resume co ∉ mail := by
    intro co hco hst
    obtain hn | hj | hj := h.finished co hco hst
    · exact hn
    · cases Option.some.inj hj
      have : (s.status co != .finished) = true := hf
      rw [hst] at this
      cases this
    · cases Option.some.inj hj
      cases hf
  refine ⟨?_, ?_, ?_, fun co hco => h.mail co (hsub _ hco), fun co hco => ?_, hnohand, fun co hco => ?_,
    fun co hco hst => ?_, fun co hco => ?_⟩
  · exact h.body
  · exact h.nodup
  · exact h.running
  · -- the coroutine neither runs nor has finished
    obtain heq | hco := List.mem_cons.mp hco
    · cases heq
      have hq := h.mail co hm
      refine ⟨hq, ?_⟩
      cases hst : s.status co with
      | ready => rfl
      | running =>
        have hin := h.running co hq hst
        rw [hbodies] at hin
        exact absurd hm (h.nested co hin)
      | finished => exact absurd hm (hfin co hq hst)
    · exact absurd hco (hnohand _)
  · rw [List.tail_cons, hbodies] at hco
    exact fun hmm => h.nested co hco (hsub _ hmm)
  · exact Or.inl (fun hmm => hfin co hco hst (hsub _ hmm))
  · obtain heq | hco := List.mem_cons.mp hco
    · cases heq
    · exact h.joined co hco

theorem bodies_cons (f : Frame) (rest : List Frame) : bodies (f :: rest) = bodies [f] ++ bodies rest :=
  List.filterMap_append (l := [f])

theorem Tidy.swap (h : Tidy home status q ⟨f :: rest, mail⟩) {g : Frame} (hf : bodies [f] = [])
    (hg : bodies [g] = []) (hgh : ∀ m, g ≠ .hand m)
    (hend : ∀ co, f = .join co ∨ f = .joined co → g = .join co ∨ g = .joined co)
    (hjoined : ∀ co, g = .joined co → status co = .finished) :
    Tidy home status q ⟨g :: rest, mail⟩ := by
  have hfb : bodies (f :: rest) = bodies rest := by rw [bodies_cons, hf, List.nil_append]
  have hgb : bodies (g :: rest) = bodies rest := by rw [bodies_cons, hg, List.nil_append]
  have hbody := h.body
  have hnodup := h.nodup
  have hrunning := h.running
  rw [hfb] at hbody hnodup hrunning
  refine ⟨?_, ?_, ?_, h.mail, fun co hco => ?_, h.top, h.nested, fun co hco hst => ?_, fun co hco => ?_⟩
  · rw [hgb]
    exact hbody
  · rw [hgb]
    exact hnodup
  · rw [hgb]
    exact hrunning
  · obtain heq | hco := List.mem_cons.mp hco
    · exact absurd heq.symm (hgh _)
    · exact absurd hco (h.top _)
  · obtain hn | hj := h.finished co hco hst
    · exact Or.inl hn
    · have hj : f = .join co ∨ f = .joined co := hj.imp Option.some.inj Option.some.inj
      exact Or.inr ((hend co hj).imp (congrArg some) (congrArg some))
  · obtain heq | hco := List.mem_cons.mp hco
    · exact hjoined co heq.symm
    · exact h.joined co (List.mem_cons_of_mem _ hco)

theorem Tidy.pop (h : Tidy home status q ⟨f :: rest, mail⟩) (hf : bodies [f] = [])
    (hend : ∀ co, f = .join co ∨ f = .joined co → .resume co ∉ mail) :
    Tidy home status q ⟨rest, mail⟩ := by
  have hfb : bodies (f :: rest) = bodies rest := by rw [bodies_cons, hf, List.nil_append]
  have hbody := h.body
  have hnodup := h.nodup
  have hrunning := h.running
  rw [hfb] at hbody hnodup hrunning
  refine ⟨hbody, hnodup, hrunning, h.mail, fun co hco => h.hand co (List.mem_cons_of_mem _ hco),
    fun m hm => h.top m (List.mem_of_mem_tail hm), fun co hco => h.nested co ?_, fun co hco hst => ?_,
    fun co hco => h.joined co (List.mem_cons_of_mem _ hco)⟩
  · exact ((List.tail_sublist rest).filterMap _).subset hco
  · obtain hn | hj := h.finished co hco hst
    · exact Or.inl hn
    · exact Or.inl (hend co (hj.imp Option.some.inj Option.some.inj))

theorem Tidy.push (h : Tidy home status q ⟨f :: rest, mail⟩) {g : Frame} (hf : f.code = true)
    (hg : bodies [g] = []) (hgh : ∀ m, g ≠ .hand m) (hgj : ∀ co, g ≠ .joined co)
    (hun : ∀ co posted, f = .body co posted → .resume co ∉ mail) :
    Tidy home status q ⟨g :: f :: rest, mail⟩ := by
  have hgb : bodies (g :: f :: rest) = bodies (f :: rest) := by
    rw [bodies_cons, hg, List.nil_append]
  refine ⟨?_, ?_, ?_, h.mail, fun co hco => ?_, fun m hm => ?_, fun co hco => ?_, fun co hco hst => ?_,
    fun co hco => ?_⟩
  · rw [hgb]
    exact h.body
  · rw [hgb]
    exact h.nodup
  · rw [hgb]
    exact h.running
  · obtain heq | hco := List.mem_cons.mp hco
    · exact absurd heq.symm (hgh _)
    · exact h.hand co hco
  · obtain rfl | hm := List.mem_cons.mp hm
    · cases hf
    · exact h.top m hm
  · have hco : co ∈ bodies (f :: rest) := hco
    rw [bodies_cons] at hco
    obtain hco | hco := List.mem_append.mp hco
    · cases f with
      | body d posted =>
        obtain rfl := List.mem_singleton.mp hco
        exact hun co posted rfl
      | loop | join _ | joined _ | hand _ | plain => cases hco
    · exact h.nested co hco
  · obtain hn | hj | hj := h.finished co hco hst
    · exact Or.inl hn
    · cases Option.some.inj hj
      cases hf
    · cases Option.some.inj hj
      cases hf
  · obtain heq | hco := List.mem_cons.mp hco
    · exact absurd heq.symm (hgj co)
    · exact h.joined co hco

theorem Tidy.resumed (h : Tidy home status q ⟨.hand (.resume co) :: rest, mail⟩) :
    Tidy home (Function.update status co .running) q ⟨.body co false :: rest, mail⟩ := by
  obtain ⟨hq, hready⟩ := h.hand co List.mem_cons_self
  have hne : ∀ {d st}, status d = st → st ≠ .ready → d ≠ co := by
    intro d st hd hst heq
    rw [heq, hready] at hd
    exact hst hd.symm
  have hother : ∀ d, d ≠ co → Function.update status co .running d = status d :=
    fun d hd => Function.update_of_ne hd _ _
  have hnot : co ∉ bodies rest := fun hin => hne (h.body co hin).2 (fun he => nomatch he) rfl
  refine ⟨fun d hd => ?_, List.nodup_cons.mpr ⟨hnot, h.nodup⟩, fun d hd hr => ?_, h.mail, fun d hd => ?_,
    h.top, h.nested, fun d hd hf => ?_, fun d hd => ?_⟩
  · obtain rfl | hd := List.mem_cons.mp hd
    · exact ⟨hq, Function.update_self _ _ _⟩
    · obtain ⟨hdq, hr⟩ := h.body d hd
      exact ⟨hdq, (hother d (hne hr (fun he => nomatch he))).trans hr⟩
  · by_cases hdc : d = co
    · rw [hdc]
      exact List.mem_cons_self
    · rw [hother d hdc] at hr
      exact List.mem_cons_of_mem _ (h.running d hd hr)
  · obtain heq | hd := List.mem_cons.mp hd
    · cases heq
    · exact absurd hd (h.top _)
  · have hdc : d ≠ co := by
      intro hdc
      rw [hdc, Function.update_self] at hf
      cases hf
    rw [hother d hdc] at hf
    obtain hn | hj | hj := h.finished d hd hf
    · exact Or.inl hn
    · cases hj
    · cases hj
  · have hd : .joined d ∈ rest := by
      obtain heq | hd := List.mem_cons.mp hd
      · cases heq
      · exact hd
    have hf := h.joined d (List.mem_cons_of_mem _ hd)
    exact (hother d (hne hf (fun he => nomatch he))).trans hf

/-- the body at the top gives the thread back: it waits or has finished -/
theorem Tidy.back (h : Tidy home status q ⟨.body co posted :: rest, mail⟩) {st : Status}
    (hst : st ≠ .running) (hend : st = .finished → .resume co ∉ mail ∨ rest.head? = some (.join co)) :
    Tidy home (Function.update status co st) q ⟨rest, mail⟩ := by
  obtain ⟨hq, hrun⟩ := h.body co List.mem_cons_self
  have hnot : co ∉ bodies rest := (List.nodup_cons.mp h.nodup).1
  have hother : ∀ d, d ≠ co → Function.update status co st d = status d :=
    fun d hd => Function.update_of_ne hd _ _
  refine ⟨fun d hd => ?_, (List.nodup_cons.mp h.nodup).2, fun d hd hr => ?_, h.mail, fun d hd => ?_,
    fun m hm => h.top m (List.mem_of_mem_tail hm), fun d hd => h.nested d ?_, fun d hd hf => ?_,
    fun d hd => ?_⟩
  · obtain ⟨hdq, hr⟩ := h.body d (List.mem_cons_of_mem _ hd)
    refine ⟨hdq, (hother d (fun hdc => ?_)).trans hr⟩
    exact hnot (hdc ▸ hd)
  · have hdc : d ≠ co := by
      intro hdc
      rw [hdc, Function.update_self] at hr
      exact hst hr
    rw [hother d hdc] at hr
    obtain rfl | hin := List.mem_cons.mp (h.running d hd hr)
    · exact absurd rfl hdc
    · exact hin
  · exact absurd hd (h.top _)
  · exact ((List.tail_sublist rest).filterMap _).subset hd
  · by_cases hdc : d = co
    · rw [hdc, Function.update_self] at hf
      rw [hdc]
      exact (hend hf).imp id Or.inl
    · rw [hother d hdc] at hf
      obtain hn | hj | hj := h.finished d hd hf
      · exact Or.inl hn
      · cases hj
      · cases hj
  · have hf := h.joined d (List.mem_cons_of_mem _ hd)
    refine (hother d (fun hdc => ?_)).trans hf
    rw [hdc, hrun] at hf
    cases hf

/-! ## the steps -/

theorem onTop_some {g : Frame → List Frame → Option State} (h : s.onTop q g = some s') :
    ∃ f rest, (s.queue q).stack = f :: rest ∧ g f rest = some s' := by
  unfold State.onTop at h
  split at h
  · exact ⟨_, _, ‹_›, h⟩
  · cases h

theorem Inv.front (h : Inv home s) (hst : (s.queue q).stack = f :: rest) :
    Tidy home s.status q ⟨f :: rest, (s.queue q).mail⟩ := by
  rw [← hst]
  exact h.tidy q

theorem Inv.setStatus (h : Inv home s) (hq : home co = q) {st : Status}
    (hfin : s.status co ≠ .finished) (hQ : Tidy home (Function.update s.status co st) q Q) :
    Inv home ((s.setQueue q Q).setStatus co st) := by
  refine ⟨tidy_set h.tidy hQ (fun d hd => ?_) (fun d hd => ?_), h.sound.pushed, h.sound.joined⟩
  · refine Function.update_of_ne (fun hdc => ?_) _ _
    rw [hdc] at hd
    exact hd hq
  · refine (Function.update_of_ne (fun hdc => ?_) _ _).trans hd
    rw [hdc] at hd
    exact hfin hd

theorem Inv.mark (h : Inv home s) {m : Mark} (hp : ∀ co st, m = .pushed co st → st = .ready)
    (hj : ∀ co st, m = .joined co st → st = .finished) : Inv home (s.mark m) := by
  refine ⟨h.tidy, fun co st hm => ?_, fun co st hm => ?_⟩
  · rcases List.mem_append.mp hm with hm | hm
    · exact h.sound.pushed co st hm
    · exact hp co st (List.mem_singleton.mp hm).symm
  · rcases List.mem_append.mp hm with hm | hm
    · exact h.sound.joined co st hm
    · exact hj co st (List.mem_singleton.mp hm).symm

theorem Inv.run (h : Inv home s) (hs : step home s (.run q) = some s') : Inv home s' := by
  obtain ⟨f, rest, hst, hs⟩ := onTop_some hs
  have ht := h.front hst
  cases f with
  | hand m =>
    cases m with
    | plain =>
      cases hs
      refine h.setQueue (ht.swap rfl rfl (fun m he => ?_) (fun co he => ?_) (fun co he => ?_))
      · cases he
      · obtain he | he := he <;> cases he
      · cases he
    | join co =>
      cases hs
      refine h.setQueue (ht.swap rfl rfl (fun m he => ?_) (fun co he => ?_) (fun co he => ?_))
      · cases he
      · obtain he | he := he <;> cases he
      · cases he
    | resume co =>
      obtain ⟨hq, hready⟩ := ht.hand co List.mem_cons_self
      simp only [hready] at hs
      cases hs
      have hmark : Inv home (s.mark (.pushed co .ready)) := by
        refine h.mark (fun d st he => ?_) (fun d st he => ?_)
        · cases he
          rfl
        · cases he
      refine hmark.setStatus hq ?_ ht.resumed
      show s.status co ≠ .finished
      rw [hready]
      exact fun he => nomatch he
  | loop | join _ | joined _ | body _ _ | plain => cases hs

/-- `Wait` posts for the body at the top -/
theorem Inv.wait (h : Inv home s) (hst : (s.queue q).stack = .body co false :: rest) :
    Inv home ((s.post (home co) (.resume co)).setStack q (.body co true :: rest)) := by
  have ht := h.front hst
  obtain ⟨hq, hrun⟩ := ht.body co List.mem_cons_self
  have hnot : ¬ Nested home s co := by
    unfold Nested
    rw [hq, hst]
    exact (List.nodup_cons.mp ht.nodup).1
  have hpost : Inv home (s.post (home co) (.resume co)) := by
    refine h.resume ?_ hnot
    rw [hrun]
    exact fun he => nomatch he
  have hstack : ((s.post (home co) (.resume co)).queue q).stack = .body co false :: rest := by
    rw [← hst, hq]
    show (Function.update s.queue q _ q).stack = _
    rw [Function.update_self]
  obtain ⟨h1, h2, h3, h4, h5, h6, h7, h8, h9⟩ := hpost.front hstack
  refine hpost.setQueue ⟨h1, h2, h3, h4, fun d hd => ?_, h6, h7, fun d hd hf => ?_, fun d hd => ?_⟩
  · obtain heq | hd := List.mem_cons.mp hd
    · cases heq
    · exact h5 d (List.mem_cons_of_mem _ hd)
  · obtain hn | hj | hj := h8 d hd hf
    · exact Or.inl hn
    · cases hj
    · cases hj
  · obtain heq | hd := List.mem_cons.mp hd
    · cases heq
    · exact h9 d (List.mem_cons_of_mem _ hd)

theorem Inv.joined (h : Inv home s) (hst : (s.queue q).stack = .joined co :: rest) :
    Inv home (((s.cancelTitle (home co) co).setStack q rest).mark (.joined co (s.status co))) := by
  have hfin := (h.front hst).joined co List.mem_cons_self
  have hc := h.cancelTitle (home co) co
  have hstack : ((s.cancelTitle (home co) co).queue q).stack = .joined co :: rest := by
    rw [← hst]
    show (Function.update s.queue (home co) _ q).stack = _
    by_cases hq : q = home co
    · rw [hq, Function.update_self]
    · rw [Function.update_of_ne hq]
  refine Inv.mark (hc.setQueue ((hc.front hstack).pop rfl (fun d hd hm => ?_))) (fun d st he => ?_)
    (fun d st he => ?_)
  · have hdc : d = co := by
      obtain hd | hd := hd
      · cases hd
      · cases hd
        rfl
    rw [hdc] at hm
    -- what is pending for it is pending at its home, and has been taken back there
    have hq : home co = q := (hc.tidy q).mail co hm
    have hmail : ((s.cancelTitle (home co) co).queue q).mail =
        (s.queue (home co)).mail.filter (· ≠ .resume co) := by
      rw [← hq]
      show (Function.update s.queue (home co) _ (home co)).mail = _
      rw [Function.update_self]
    rw [hmail] at hm
    exact of_decide_eq_true (List.mem_filter.mp hm).2 rfl
  · cases he
  · cases he
    exact hfin

theorem step_inv {a : Act} (h : Inv home s) (hd : Disciplined home s a)
    (hs : step home s a = some s') : Inv home s' := by
  cases a with
  | resume co =>
    cases hs
    exact h.resume hd.1 hd.2
  | cancel co =>
    cases hs
    exact h.cancelTitle _ _
  | join co =>
    cases hs
    exact h.post_other (fun d he => by cases he) _
  | post q =>
    cases hs
    exact h.post_other (fun d he => by cases he) _
  | pick q m =>
    obtain ⟨f, rest, hst, hs⟩ := onTop_some hs
    obtain ⟨⟨hf, hm⟩, hs⟩ := Option.ite_none_right_eq_some.mp hs
    cases hs
    exact h.setQueue ((h.front hst).pick hf hm)
  | run q => exact h.run hs
  | enter q =>
    obtain ⟨f, rest, hst, hs⟩ := onTop_some hs
    obtain ⟨hf, hs⟩ := Option.ite_none_right_eq_some.mp hs
    cases hs
    refine h.setQueue ((h.front hst).push hf rfl (fun m he => ?_) (fun co he => ?_) (fun co p he => ?_))
    · cases he
    · cases he
    · exact hd co p rest (he ▸ hst)
  | joinHere q co =>
    obtain ⟨f, rest, hst, hs⟩ := onTop_some hs
    obtain ⟨⟨hf, -⟩, hs⟩ := Option.ite_none_right_eq_some.mp hs
    cases hs
    refine h.setQueue ((h.front hst).push hf rfl (fun m he => ?_) (fun co he => ?_) (fun co p he => ?_))
    · cases he
    · cases he
    · exact hd co p rest (he ▸ hst)
  | exit q =>
    obtain ⟨f, rest, hst, hs⟩ := onTop_some hs
    have ht := h.front hst
    cases f with
    | loop =>
      cases hs
      refine h.setQueue (ht.pop rfl (fun co he => ?_))
      obtain he | he := he <;> cases he
    | join co =>
      obtain ⟨hfin, hs⟩ := Option.ite_none_right_eq_some.mp hs
      cases hs
      refine h.setQueue (ht.swap rfl rfl (fun m he => ?_) (fun d he => ?_) (fun d he => ?_))
      · cases he
      · obtain he | he := he
        · cases he
          exact Or.inr rfl
        · cases he
      · cases he
        exact hfin
    | joined _ | hand _ | body _ _ | plain => cases hs
  | joined q =>
    obtain ⟨f, rest, hst, hs⟩ := onTop_some hs
    cases f with
    | joined co =>
      cases hs
      exact h.joined hst
    | loop | join _ | hand _ | body _ _ | plain => cases hs
  | wait q =>
    obtain ⟨f, rest, hst, hs⟩ := onTop_some hs
    cases f with
    | body co posted =>
      cases posted <;> cases hs
      exact h.wait hst
    | loop | join _ | joined _ | hand _ | plain => cases hs
  | yield q =>
    obtain ⟨f, rest, hst, hs⟩ := onTop_some hs
    cases f with
    | body co posted =>
      cases hs
      have ht := h.front hst
      obtain ⟨hq, hrun⟩ := ht.body co List.mem_cons_self
      refine h.setStatus hq ?_ (ht.back ?_ (fun he => ?_))
      · rw [hrun]
        exact fun he => nomatch he
      · exact fun he => nomatch he
      · cases he
    | loop | join _ | joined _ | hand _ | plain => cases hs
  | finish q =>
    obtain ⟨f, rest, hst, hs⟩ := onTop_some hs
    cases f with
    | body co posted =>
      cases posted <;> cases hs
      have ht := h.front hst
      obtain ⟨hq, hrun⟩ := ht.body co List.mem_cons_self
      refine h.setStatus hq ?_ (ht.back ?_ (fun _ => ?_))
      · rw [hrun]
        exact fun he => nomatch he
      · exact fun he => nomatch he
      · obtain hun | ⟨d, p, r, hbelow⟩ := hd
        · exact Or.inl (hun co false rest hst)
        · rw [hst] at hbelow
          cases hbelow
          exact Or.inr rfl
    | loop | join _ | joined _ | hand _ | plain => cases hs
  | done q =>
    obtain ⟨f, rest, hst, hs⟩ := onTop_some hs
    cases f with
    | plain =>
      cases hs
      refine h.setQueue ((h.front hst).pop rfl (fun co he => ?_))
      obtain he | he := he <;> cases he
    | loop | join _ | joined _ | hand _ | body _ _ => cases hs

theorem Inv.init (home : Nat → Nat) : Inv home {} := by
  refine ⟨fun q => ⟨?_, List.nodup_nil, ?_, ?_, ?_, ?_, ?_, ?_, ?_⟩, ?_, ?_⟩ <;> intros <;> simp_all [bodies]

end

end Coroutine.Discipline
