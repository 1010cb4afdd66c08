import LearnDiary.Socket.TcpClientFsm
import Mathlib.Data.List.Nodup

/-!
# The calls of `_OnClose` (comm/socket/tcpclient_fsm.cc)

`_OnClose` is called in `PreConnectSelect`, at the end of `AfterSelect` and in `Close`.  `TcpServerFSM`
gives its last argument the meaning that the end came from the local side.

* `Sound`         what holds of a machine under any calls;
* `Told`          one notice at most for a socket, with the right `_userclose`;
* `step_told`     kept by every call but a `Close` that gives notice and a second `AfterSelect` at the
                  end;
* `told_iff`      and by those it never is.
-/

namespace CloseNotice
open Runs TcpClientFSM
variable {δ α : Type}

/-- a call of `_OnClose`: the socket it is about, its arguments, and whether a `Close` of the local
side had ended the connection -/
structure Notice where
  sock : Option Nat
  _status : TSocketStatus
  _error : Int
  _userclose : Bool
  byClose : Bool
deriving DecidableEq

structure State (δ : Type) where
  fsm : TcpClientFSM δ
  log : List Notice := []
  /-- a `Close` of the local side ended the connection -/
  byClose : Bool := false

inductive Act (α : Type) where
  | preSelect (o : ConnectCalls)
  | afterSelect (o : Selected α)
  | close

def Act.isClose : Act α → Bool
  | .close => true
  | _ => false

def apply (V : Virtual δ α) (f : TcpClientFSM δ) : Act α → Option (TcpClientFSM δ × List FsmCall)
  | .preSelect o => f.preSelect o
  | .afterSelect o => f.afterSelect V o
  | .close => some (f.close true)

/-- the notices among the calls made by a machine with this socket -/
def notices (sock : Option Nat) (byClose : Bool) (calls : List FsmCall) : List Notice :=
  calls.filterMap fun
    | ._OnClose status error userclose => some ⟨sock, status, error, userclose, byClose⟩
    | _ => none

def step (V : Virtual δ α) (s : State δ) (a : Act α) : Option (State δ) :=
  (apply V s.fsm a).map fun t =>
    let byClose := if s.fsm.status_ = .EEnd then s.byClose else a.isClose
    { fsm := t.1, byClose, log := s.log ++ notices s.fsm.sock_ byClose t.2 }

def new (own : δ) : State δ := { fsm := { own } }

/-- one notice at most for a socket, and `_userclose` where a local `Close` was the end -/
def Told (s : State δ) : Prop :=
  (s.log.map Notice.sock).Nodup ∧ ∀ n ∈ s.log, n._userclose = n.byClose

/-- `Close` finds no connection to give notice of, and `AfterSelect` none that it gave notice of -/
def Quiet (s : State δ) : Act α → Prop
  | .preSelect _ => True
  | .afterSelect _ => s.fsm.status_ = .EEnd → s.fsm.sock_.isSome → s.log = []
  | .close => s.fsm.sock_ = none ∨ s.fsm.remote_close_ = true ∨ s.fsm.error_ ≠ 0

structure Sound (s : State δ) : Prop where
  live : s.fsm.status_ ≠ .EEnd → s.log = [] ∧ s.fsm.error_ = 0 ∧ s.fsm.remote_close_ = false
  start : s.fsm.status_ = .EStart → s.fsm.sock_ = none
  open_ : s.fsm.status_ = .EConnecting ∨ s.fsm.status_ = .EReadWrite → s.fsm.sock_.isSome
  about : ∀ n ∈ s.log, s.fsm.sock_.isSome → n.sock = s.fsm.sock_
  ended : s.fsm.status_ = .EEnd → s.fsm.sock_.isSome → s.byClose = false ∧
    (s.fsm.error_ = 0 → s.fsm.remote_close_ = false → s.log ≠ [])

section
variable {V : Virtual δ α} {s s' : State δ} {a : Act α}

theorem new_sound (own : δ) : Sound (new own) := by
  refine ⟨fun _ => ⟨rfl, rfl, rfl⟩, fun _ => rfl, ?_, ?_, ?_⟩
  · rintro (h | h) <;> cases h
  · intro n hn
    cases hn
  · intro h
    cases h

theorem notices_report (sock : Option Nat) (byClose : Bool) (f : TcpClientFSM δ) :
    notices sock byClose f.report = if f.status_ = .EEnd ∧ f.sock_.isSome then
      [⟨sock, f.last_status_, f.error_, false, byClose⟩] else [] := by
  unfold report
  split <;> rfl

theorem step_eq (hs : step V s a = some s') : ∃ calls, apply V s.fsm a = some (s'.fsm, calls) ∧
    s'.byClose = (if s.fsm.status_ = .EEnd then s.byClose else a.isClose) ∧
    s'.log = s.log ++ notices s.fsm.sock_ s'.byClose calls := by
  obtain ⟨⟨f, calls⟩, hf, rfl⟩ := Option.map_eq_some_iff.mp hs
  exact ⟨calls, hf, rfl, rfl⟩

theorem sound_of_closed (hst : s.fsm.status_ = .EEnd) (hsock : s.fsm.sock_ = none) : Sound s := by
  refine ⟨fun hl => absurd hst hl, fun _ => hsock, fun hl => ?_, fun n _ ho => ?_, fun _ ho => ?_⟩
  · rw [hst] at hl
    rcases hl with hl | hl <;> cases hl
  · rw [hsock] at ho
    cases ho
  · rw [hsock] at ho
    cases ho

theorem preSelect_sound (h : Sound s) {o : ConnectCalls} (hs : step V s (.preSelect o) = some s') :
    Sound s' := by
  obtain ⟨calls, hf, hby, hlog⟩ := step_eq hs
  cases pre_of hf with
  | idle hst he =>
    have hlog' : s'.log = s.log := hlog.trans (List.append_nil _)
    refine ⟨?_, ?_, ?_, ?_, fun hl ho => ?_⟩
    · rw [he, hlog']
      exact h.live
    · rw [he]
      exact h.start
    · rw [he]
      exact h.open_
    · rw [he, hlog']
      exact h.about
    · rw [he] at hl ho
      rw [he, hlog', hby, if_pos hl]
      exact h.ended hl ho
  | failed hst hst' hsock => exact sound_of_closed hst' (hsock.trans (h.start hst))
  | ends hst hst' hsock herr =>
    have hlive : s.fsm.status_ ≠ .EEnd := by
      rw [hst]
      decide
    have hlog' : s'.log = [] := by
      rw [hlog, (h.live hlive).1]
      rfl
    refine ⟨fun hl => absurd hst' hl, fun hl => ?_, fun hl => ?_, fun n hn => ?_, fun _ _ => ⟨?_, ?_⟩⟩
    · rw [hst'] at hl
      cases hl
    · rw [hst'] at hl
      rcases hl with hl | hl <;> cases hl
    · rw [hlog'] at hn
      cases hn
    · rw [hby, if_neg hlive]
      rfl
    · intro h0
      exact absurd h0 herr
  | connecting hst hst' hsock herr hrem hbufs =>
    have hlive : s.fsm.status_ ≠ .EEnd := by
      rw [hst]
      decide
    obtain ⟨hnil, -, hno⟩ := h.live hlive
    have hlog' : s'.log = [] := by
      rw [hlog, hnil]
      rfl
    refine ⟨fun _ => ⟨hlog', herr, hrem.trans hno⟩, fun hl => ?_, fun _ => ?_, fun n hn => ?_,
      fun hl => ?_⟩
    · rw [hst'] at hl
      cases hl
    · rw [hsock]
      rfl
    · rw [hlog'] at hn
      cases hn
    · rw [hst'] at hl
      cases hl

theorem afterSelect_log {o : Selected α} (hs : step V s (.afterSelect o) = some s') :
    s.fsm.advance V o = some s'.fsm ∧
    s'.byClose = (if s.fsm.status_ = .EEnd then s.byClose else false) ∧
    s'.log = s.log ++ if s'.fsm.status_ = .EEnd ∧ s'.fsm.sock_.isSome then
      [⟨s.fsm.sock_, s'.fsm.last_status_, s'.fsm.error_, false, s'.byClose⟩] else [] := by
  obtain ⟨calls, hf, hby, hlog⟩ := step_eq hs
  obtain ⟨f, hadv, he⟩ := Option.map_eq_some_iff.mp hf
  cases he
  rw [notices_report] at hlog
  exact ⟨hadv, hby, hlog⟩

theorem afterSelect_sound (h : Sound s) {o : Selected α}
    (hs : step V s (.afterSelect o) = some s') : Sound s' := by
  obtain ⟨hf, hby, hlog⟩ := afterSelect_log hs
  cases advance_of hf with
  | idle hst he =>
    rw [he] at hlog
    rcases hst with hst | hst
    · rw [if_neg (by rw [hst]; exact fun hc => nomatch hc.1), List.append_nil] at hlog
      refine ⟨?_, ?_, ?_, ?_, fun hl => ?_⟩
      · rw [he, hlog]
        exact h.live
      · rw [he]
        exact h.start
      · rw [he]
        exact h.open_
      · rw [he, hlog]
        exact h.about
      · rw [he, hst] at hl
        cases hl
    · by_cases ho : s.fsm.sock_.isSome = true
      · rw [if_pos ⟨hst, ho⟩] at hlog
        refine ⟨fun hl => absurd (he ▸ hst) hl, ?_, ?_, fun n hn _ => ?_, fun _ _ => ⟨?_, ?_⟩⟩
        · rw [he]
          exact h.start
        · rw [he]
          exact h.open_
        · rw [hlog] at hn
          rw [he]
          rcases List.mem_append.mp hn with hn | hn
          · exact h.about n hn ho
          · rw [List.mem_singleton.mp hn]
        · rw [hby, if_pos hst]
          exact (h.ended hst ho).1
        · intro _ _
          rw [hlog]
          exact List.append_ne_nil_of_right_ne_nil _ (List.cons_ne_nil _ _)
      · rw [Option.not_isSome_iff_eq_none] at ho
        exact sound_of_closed (he ▸ hst) (he ▸ ho)
  | on hst hst' hsock herr hrem =>
    have hlive : s.fsm.status_ ≠ .EEnd := by
      rcases hst with hst | hst <;> rw [hst] <;> decide
    have hlive' : s'.fsm.status_ ≠ .EEnd := by
      rcases hst' with hst' | hst' <;> rw [hst'] <;> decide
    obtain ⟨hnil, h0, hno⟩ := h.live hlive
    rw [if_neg (fun hc => hlive' hc.1), List.append_nil, hnil] at hlog
    refine ⟨fun _ => ⟨hlog, ?_, hrem.trans hno⟩, fun hl => ?_, fun _ => ?_, fun n hn => ?_,
      fun hl => absurd hl hlive'⟩
    · rcases herr with herr | herr
      · exact herr.trans h0
      · exact herr
    · rcases hst' with hst' | hst' <;> rw [hst'] at hl <;> cases hl
    · rw [hsock]
      exact h.open_ hst
    · rw [hlog] at hn
      cases hn
  | ends hst hst' hlast hsock =>
    have hlive : s.fsm.status_ ≠ .EEnd := by
      rcases hst with hst | hst <;> rw [hst] <;> decide
    have ho : s'.fsm.sock_.isSome = true := by
      rw [hsock]
      exact h.open_ hst
    rw [if_pos ⟨hst', ho⟩, (h.live hlive).1] at hlog
    refine ⟨fun hl => absurd hst' hl, fun hl => ?_, fun hl => ?_, fun n hn _ => ?_,
      fun _ _ => ⟨?_, fun _ _ => ?_⟩⟩
    · rw [hst'] at hl
      cases hl
    · rw [hst'] at hl
      rcases hl with hl | hl <;> cases hl
    · rw [hlog] at hn
      rw [List.mem_singleton.mp hn]
      exact hsock.symm
    · rw [hby, if_neg hlive]
    · rw [hlog]
      exact List.cons_ne_nil _ _

theorem close_sound (h : Sound s) (hs : step V s .close = some s') : Sound s' := by
  obtain ⟨calls, hf, hby, hlog⟩ := step_eq hs
  cases close_of (Option.some.inj hf) with
  | nothing hsock he =>
    have hlog' : s'.log = s.log := hlog.trans (List.append_nil _)
    refine ⟨?_, ?_, ?_, ?_, fun _ ho => ?_⟩
    · rw [he, hlog']
      exact h.live
    · rw [he]
      exact h.start
    · rw [he]
      exact h.open_
    · rw [he, hlog']
      exact h.about
    · rw [he, hsock] at ho
      cases ho
  | silent hsock hend hsock' hst =>
    refine sound_of_closed (hst.trans ?_) hsock'
    by_contra hl
    obtain ⟨-, h0, hno⟩ := h.live hl
    rcases hend with hend | hend
    · rw [hno] at hend
      cases hend
    · exact hend h0
  | closes hsock hrem herr hsock' hst => exact sound_of_closed hst hsock'

theorem step_sound (h : Sound s) (hs : step V s a = some s') : Sound s' := by
  cases a with
  | preSelect o => exact preSelect_sound h hs
  | afterSelect o => exact afterSelect_sound h hs
  | close => exact close_sound h hs

theorem run_sound {own : δ} (h : AnyRun (step V) (new own) s) : Sound s := by
  refine Run.keep h ?_ (new_sound own)
  intro t a t' ht _ ha
  exact step_sound ht ha

/-! ## the law -/

theorem advance_end {f f' : TcpClientFSM δ} {o : Selected α} (hst : f.status_ = .EEnd)
    (h : f.advance V o = some f') : f' = f := by
  unfold advance at h
  rw [hst] at h
  exact (Option.some.inj h).symm

theorem told_of_nil (h : s.log = []) : Told s := by
  unfold Told
  rw [h]
  refine ⟨List.nodup_nil, fun n hn => ?_⟩
  cases hn

theorem told_of_one {n : Notice} (h : s.log = [n]) (hn : n._userclose = n.byClose) : Told s := by
  unfold Told
  rw [h]
  refine ⟨List.nodup_singleton _, fun m hm => ?_⟩
  rw [List.mem_singleton.mp hm]
  exact hn

/-- **A call under the condition gives at most the first notice, and the right one.** -/
theorem step_told (h : Sound s) (ht : Told s) (hq : Quiet s a) (hs : step V s a = some s') :
    Told s' := by
  have hkeep : s'.log = s.log → Told s' := by
    intro hlog
    unfold Told
    rw [hlog]
    exact ht
  cases a with
  | preSelect o =>
    obtain ⟨calls, hf, hby, hlog⟩ := step_eq hs
    cases pre_of hf with
    | idle hst he => exact hkeep (hlog.trans (List.append_nil _))
    | failed hst hst' hsock =>
      have hlive : s.fsm.status_ ≠ .EEnd := by
        rw [hst]
        decide
      rw [(h.live hlive).1] at hlog
      refine told_of_one hlog ?_
      rw [hby, if_neg hlive]
      rfl
    | ends hst hst' hsock herr => exact hkeep (hlog.trans (List.append_nil _))
    | connecting hst hst' hsock herr hrem hbufs => exact hkeep (hlog.trans (List.append_nil _))
  | afterSelect o =>
    obtain ⟨hf, hby, hlog⟩ := afterSelect_log hs
    split at hlog
    · rename_i hend
      have hsame : s.fsm.status_ = .EEnd → s.fsm.sock_.isSome = true := by
        intro hst
        rw [← advance_end hst hf]
        exact hend.2
      have hnil : s.log = [] := by
        by_cases hst : s.fsm.status_ = .EEnd
        · exact hq hst (hsame hst)
        · exact (h.live hst).1
      rw [hnil] at hlog
      refine told_of_one hlog ?_
      rw [hby]
      split
      · rename_i hst
        exact (h.ended hst (hsame hst)).1.symm
      · rfl
    · exact hkeep (hlog.trans (List.append_nil _))
  | close =>
    obtain ⟨calls, hf, hby, hlog⟩ := step_eq hs
    cases close_of (Option.some.inj hf) with
    | nothing hsock he => exact hkeep (hlog.trans (List.append_nil _))
    | silent hsock hend hsock' hst => exact hkeep (hlog.trans (List.append_nil _))
    | closes hsock hrem herr hsock' hst =>
      rcases hq with hq | hq | hq
      · rw [hsock] at hq
        cases hq
      · rw [hrem] at hq
        cases hq
      · exact absurd herr hq

/-- **and any other call breaks the law**: a `Close` that gives notice says it was not the local side,
or gives a second notice, as does a second `AfterSelect` at the end. -/
theorem step_untold (h : Sound s) (hq : ¬ Quiet s a) (hs : step V s a = some s') : ¬ Told s' := by
  rintro ⟨hnodup, hall⟩
  -- two notices about the one socket
  have htwice : ∀ n : Notice, s'.log = s.log ++ [n] → n.sock = s.fsm.sock_ →
      s.fsm.sock_.isSome = true → s.log ≠ [] → False := by
    intro n hlog hn ho hne
    obtain ⟨m, l, hm⟩ := List.exists_cons_of_ne_nil hne
    have hm' : m.sock = s.fsm.sock_ := h.about m (by rw [hm]; exact List.mem_cons_self) ho
    rw [hlog, hm, List.cons_append, List.map_cons, List.nodup_cons] at hnodup
    refine hnodup.1 (List.mem_map.mpr ⟨n, ?_, hn.trans hm'.symm⟩)
    exact List.mem_append_right _ (List.mem_singleton.mpr rfl)
  cases a with
  | preSelect o => exact hq trivial
  | afterSelect o =>
    obtain ⟨hf, hby, hlog⟩ := afterSelect_log hs
    unfold Quiet at hq
    push Not at hq
    obtain ⟨hst, ho, hne⟩ := hq
    have he := advance_end hst hf
    rw [if_pos ⟨he ▸ hst, he ▸ ho⟩] at hlog
    exact htwice _ hlog rfl ho hne
  | close =>
    obtain ⟨calls, hf, hby, hlog⟩ := step_eq hs
    unfold Quiet at hq
    push Not at hq
    obtain ⟨hsock, hrem, herr⟩ := hq
    cases close_of (Option.some.inj hf) with
    | nothing hnone he => exact hsock hnone
    | silent hsome hend hsock' hst =>
      rcases hend with hend | hend
      · exact hrem hend
      · exact hend herr
    | closes hsome hrem' herr' hsock' hst =>
      have hlog' : s'.log = s.log ++
          [⟨s.fsm.sock_, s.fsm.status_, 0, s.fsm.remote_close_, s'.byClose⟩] := hlog
      by_cases hend : s.fsm.status_ = .EEnd
      · have ho : s.fsm.sock_.isSome = true := Option.isSome_iff_ne_none.mpr hsock
        exact htwice _ hlog' rfl ho ((h.ended hend ho).2 herr hrem')
      · have hlast := hall _ (by rw [hlog']; exact List.mem_append_right _ (List.mem_singleton.mpr rfl))
        dsimp only at hlast
        rw [hby, if_neg hend, hrem'] at hlast
        cases hlast

theorem run_told {own : δ} (h : Run (step V) Quiet (new own) s) : Told s := by
  refine (Run.keep (P := fun t => Sound t ∧ Told t) h ?_ ⟨new_sound own, told_of_nil rfl⟩).2
  intro t a t' ht hq ha
  exact ⟨step_sound ht.1 ha, step_told ht.1 ht.2 hq ha⟩

/-- **The notices of a schedule are right throughout exactly when no `Close` gives one and no
`AfterSelect` gives one again.** -/
theorem told_iff (V : Virtual δ α) (own : δ) (l : List (Act α)) :
    (∀ l₁ l₂ t, l = l₁ ++ l₂ → exec (step V) (new own) l₁ = some t → Told t) ↔
      ∀ l₁ a l₂ t, l = l₁ ++ a :: l₂ → exec (step V) (new own) l₁ = some t → Quiet t a := by
  constructor
  · intro h l₁ a l₂ t hl ht
    by_contra hq
    have hsound := run_sound (Run.of_exec ht)
    obtain ⟨u, hu⟩ : ∃ u, step V t a = some u := by
      cases a with
      | preSelect o => exact absurd trivial hq
      | afterSelect o =>
        unfold Quiet at hq
        push Not at hq
        have hadv : t.fsm.afterSelect V o = some (t.fsm, t.fsm.report) := by
          unfold afterSelect advance
          rw [hq.1]
          rfl
        exact ⟨_, Option.map_eq_some_iff.mpr ⟨_, hadv, rfl⟩⟩
      | close => exact ⟨_, rfl⟩
    refine step_untold hsound hq hu (h (l₁ ++ [a]) l₂ u ?_ ?_)
    · rw [hl, List.append_assoc]
      rfl
    · rw [exec_append, ht]
      show (step V t a).bind _ = some u
      rw [hu]
      rfl
  · intro h l₁ l₂ t hl ht
    suffices hrun : Run (step V) Quiet (new own) t from run_told hrun
    refine Run.of_exec_at ht ?_
    intro k a k' u hk hu
    refine h k a (k' ++ l₂) u ?_ hu
    rw [hl, hk, List.append_assoc]
    rfl

end

def still : Virtual Unit Unit :=
  { onConnected := fun _ b => b, onRequestSend := fun _ b => some b, onSend := fun _ b => b,
    onRecv := fun _ b => some b }

def given : List (Act Unit) := [.preSelect (.made 3 none none), .close]

theorem given_untold : ¬ ∀ s, AnyRun (step still) (new ()) s → Told s := by
  intro h
  obtain ⟨s, hs, hlog⟩ : ∃ s, exec (step still) (new ()) given = some s ∧
      s.log = [⟨some 3, .EConnecting, 0, false, true⟩] := ⟨_, rfl, rfl⟩
  have hn := (h s (Run.of_exec hs)).2 ⟨some 3, .EConnecting, 0, false, true⟩ (by rw [hlog]; exact List.mem_cons_self)
  cases hn

end CloseNotice
