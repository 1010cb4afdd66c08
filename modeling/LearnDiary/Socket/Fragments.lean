import LearnDiary.Socket.Exchange
import Mathlib.Data.List.GetD
import Mathlib.Data.List.TakeDrop

/-!
# SOCKS5 replies cut into pieces (comm/socket/complexconnect.cc)

Which exchanges go the same way however `recv` cuts the replies.  `Ends` lists the courses an exchange
can take, reply by reply.

* `run_ends`, `ends_run`    the courses that the cuts give are those of `Ends`;
* `Exact.unique`, `Unique.exact`  when they are all one;
* `whole_iff`               the two together, from the start of the exchange.
-/

namespace Socks5
open CheckFsm Runs

/-! ## the courses of an exchange -/

def Complete (y : Exchange) : Prop := y.checked = true ∨ y.flight = []

/-- what is seen and shown does not depend on the cut -/
def Whole (u : Setup) (replies : List Bytes) : Prop :=
  ∀ cut cut' y y', run u replies cut = some y → Complete y →
    run u replies cut' = some y' → Complete y' → y.seen = y'.seen ∧ y.presented = y'.presented

/-- what an exchange that waits in `X`, with these bytes in flight, can lead through: a reply is
judged at any `k` where its length test passes -/
inductive Ends (u : Setup) : Stage → Bytes → List Bytes → List TCheckStatus → List Bytes → Prop
  | stalls {X : Stage} {S : Bytes} {R : List Bytes} (h : ready X S = false) : Ends u X S R [] []
  | last {X : Stage} {S : Bytes} {R : List Bytes} {k : Nat} (hk : k ≤ S.length)
      (hr : ready X (S.take k) = true) (hc : (course u X (S.take k)).2 = none) :
      Ends u X S R (course u X (S.take k)).1 (shown X (S.take k))
  | goes {X Y : Stage} {S : Bytes} {R : List Bytes} {k : Nat} {s : List TCheckStatus} {v : List Bytes}
      (hk : k ≤ S.length) (hr : ready X (S.take k) = true) (hc : (course u X (S.take k)).2 = some Y)
      (h : Ends u Y (onward u Y (S.drop k) R).1 (onward u Y (S.drop k) R).2 s v) :
      Ends u X S R ((course u X (S.take k)).1 ++ s) (shown X (S.take k) ++ v)

section
variable {u : Setup} {X : Stage} {x y : Exchange}

theorem step_size {n : Nat} (h : step u x n = some y) :
    x.checked = false ∧ 0 < n ∧ n ≤ x.flight.length := by
  obtain ⟨z, hz, -⟩ := Option.bind_eq_some_iff.mp h
  unfold read at hz
  split at hz
  · cases hz
  · rename_i hno
    obtain ⟨hc, hno⟩ := not_or.mp hno
    obtain ⟨h0, hn⟩ := not_or.mp hno
    exact ⟨Bool.eq_false_of_not_eq_true hc, Nat.pos_of_ne_zero h0, not_lt.mp hn⟩

/-- **What a cut leads through is one of the courses.** -/
theorem run_ends {l : List Nat} (hA : At u X x) (h : exec (step u) x l = some y) (hy : Complete y) :
    ∃ s v, Ends u X (x.fsm.recv_buf_ ++ x.flight) x.replies s v ∧ y.seen = x.seen ++ s ∧
      y.presented = x.presented ++ v := by
  induction l generalizing X x with
  | nil =>
    obtain rfl : x = y := Option.some.inj h
    have hflight : x.flight = [] := by
      rcases hy with hc | hf
      · rw [hA.unchecked] at hc
        cases hc
      · exact hf
    refine ⟨[], [], .stalls ?_, (List.append_nil _).symm, (List.append_nil _).symm⟩
    rw [hflight, List.append_nil]
    exact hA.short
  | cons n l ih =>
    obtain ⟨z, hz, hl⟩ := Option.bind_eq_some_iff.mp h
    obtain ⟨-, h0, hn⟩ := step_size hz
    by_cases hr : ready X (buffer x n) = true
    · obtain ⟨z', hz', hseen, hpres, hcome⟩ := step_fire hA h0 hn hr
      cases hz.symm.trans hz'
      have hcut : buffer x n = (x.fsm.recv_buf_ ++ x.flight).take (x.fsm.recv_buf_.length + n) := by
        rw [List.take_length_add_append]
        rfl
      have hrest : x.flight.drop n = (x.fsm.recv_buf_ ++ x.flight).drop
          (x.fsm.recv_buf_.length + n) := by
        rw [List.drop_length_add_append]
      have hk : x.fsm.recv_buf_.length + n ≤ (x.fsm.recv_buf_ ++ x.flight).length := by
        rw [List.length_append]
        omega
      rw [hcut] at hr hseen hpres hcome
      rw [hrest] at hcome
      cases hc : (course u X ((x.fsm.recv_buf_ ++ x.flight).take (x.fsm.recv_buf_.length + n))).2 with
      | none =>
        rw [hc] at hcome
        cases l with
        | nil =>
          cases hl
          exact ⟨_, _, .last hk hr hc, hseen, hpres⟩
        | cons m l =>
          obtain ⟨w, hw, -⟩ := Option.bind_eq_some_iff.mp hl
          have hun := (step_size hw).1
          rw [hcome] at hun
          cases hun
      | some Y =>
        rw [hc] at hcome
        obtain ⟨hA', hrecv, honw⟩ := hcome
        obtain ⟨s, v, hE, hs, hv⟩ := ih hA' hl
        have hflight : z.flight = _ := congrArg Prod.fst honw
        have hrep : z.replies = _ := congrArg Prod.snd honw
        rw [hrecv, List.nil_append, hflight, hrep] at hE
        refine ⟨_, _, .goes hk hr hc hE, ?_, ?_⟩
        · rw [hs, hseen, List.append_assoc]
        · rw [hv, hpres, List.append_assoc]
    · obtain ⟨z', hz', hA', hrecv, hflight, hrep, hseen, hpres⟩ :=
        step_wait hA h0 hn (Bool.eq_false_of_not_eq_true hr)
      cases hz.symm.trans hz'
      obtain ⟨s, v, hE, hs, hv⟩ := ih hA' hl
      have hall : buffer x n ++ x.flight.drop n = x.fsm.recv_buf_ ++ x.flight := by
        unfold buffer
        rw [List.append_assoc, List.take_append_drop]
      rw [hrecv, hflight, hrep, hall] at hE
      exact ⟨s, v, hE, by rw [hs, hseen], by rw [hv, hpres]⟩

theorem ready_pos {S : Bytes} {k : Nat} (h : ready X (S.take k) = true) : 0 < k := by
  refine Nat.pos_of_ne_zero ?_
  rintro rfl
  rw [List.take_zero, ready_nil] at h
  cases h

/-- **Each of the courses is what some cut leads through.** -/
theorem ends_run {S : Bytes} {R : List Bytes} {s : List TCheckStatus} {v : List Bytes}
    (hE : Ends u X S R s v) (hA : At u X x) (hrecv : x.fsm.recv_buf_ = []) (hS : x.flight = S)
    (hR : x.replies = R) :
    ∃ l y, exec (step u) x l = some y ∧ Complete y ∧ y.seen = x.seen ++ s ∧
      y.presented = x.presented ++ v := by
  induction hE generalizing x with
  | @stalls X S R h =>
    subst hS
    by_cases hnil : x.flight = []
    · exact ⟨[], x, rfl, Or.inr hnil, (List.append_nil _).symm, (List.append_nil _).symm⟩
    · have hlen : 0 < x.flight.length := List.length_pos_iff.mpr hnil
      obtain ⟨y, hy, -, -, hflight, -, hseen, hpres⟩ := step_wait hA hlen le_rfl
        (by rw [buffer_fresh hrecv, List.take_length]; exact h)
      refine ⟨[x.flight.length], y, ?_, Or.inr ?_, ?_, ?_⟩
      · exact Option.bind_eq_some_iff.mpr ⟨y, hy, rfl⟩
      · rw [hflight, List.drop_length]
      · rw [hseen, List.append_nil]
      · rw [hpres, List.append_nil]
  | @last X S R k hk hr hc =>
    subst hS
    obtain ⟨y, hy, hseen, hpres, hcome⟩ := step_fire hA (ready_pos hr) hk
      (by rw [buffer_fresh hrecv]; exact hr)
    rw [buffer_fresh hrecv] at hseen hpres hcome
    rw [hc] at hcome
    exact ⟨[k], y, Option.bind_eq_some_iff.mpr ⟨y, hy, rfl⟩, Or.inl hcome, hseen, hpres⟩
  | @goes X Y S R k s v hk hr hc _ ih =>
    subst hS hR
    obtain ⟨z, hz, hseen, hpres, hcome⟩ := step_fire hA (ready_pos hr) hk
      (by rw [buffer_fresh hrecv]; exact hr)
    rw [buffer_fresh hrecv] at hseen hpres hcome
    rw [hc] at hcome
    obtain ⟨hA', hrecv', honw⟩ := hcome
    obtain ⟨l, y, hl, hy, hs, hv⟩ := ih hA' hrecv' (congrArg Prod.fst honw) (congrArg Prod.snd honw)
    refine ⟨k :: l, y, Option.bind_eq_some_iff.mpr ⟨z, hz, hl⟩, hy, ?_, ?_⟩
    · rw [hs, hseen, List.append_assoc]
    · rw [hv, hpres, List.append_assoc]

end

/-! ## the replies that no cut changes -/

/-- the length test passes and nothing stands behind the reply -/
def Tight (X : Stage) (S : Bytes) : Prop := ready X S = true ∧ ready X S.dropLast = false

/-- **The replies behind which nothing is lost**: `S` answers the request before `X`, `R` the ones to
come.  What stands behind a reply is lost from any byte on, which matters unless the next step fails
or stalls with any of it. -/
inductive Exact (u : Setup) : Stage → Bytes → List Bytes → Prop
  | short {X : Stage} {S : Bytes} {R : List Bytes} (h : ready X S = false) : Exact u X S R
  | last {X : Stage} {S : Bytes} {R : List Bytes} (hX : X ≠ .verify) (h : ready X S = true)
      (hc : (course u X S).2 = none) : Exact u X S R
  | verify {S : Bytes} {R : List Bytes} (h : S.length = 1) : Exact u .verify S R
  | tight {X Y : Stage} {S : Bytes} {R : List Bytes} (hc : (course u X S).2 = some Y) (h : Tight X S)
      (hY : Exact u Y (onward u Y [] R).1 (onward u Y [] R).2) : Exact u X S R
  | refused {X Y : Stage} {S : Bytes} {R : List Bytes} (hc : (course u X S).2 = some Y)
      (h : ∀ k ≤ S.length, ready X (S.take k) = true →
        ready Y (onward u Y (S.drop k) R).1 = true ∧ refused Y (onward u Y (S.drop k) R).1 = true) :
      Exact u X S R
  | starved {X Y : Stage} {S : Bytes} {R : List Bytes} (hc : (course u X S).2 = some Y)
      (h : ∀ k ≤ S.length, ready X (S.take k) = true → ready Y (onward u Y (S.drop k) R).1 = false) :
      Exact u X S R

section
variable {u : Setup} {X Y : Stage} {S : Bytes} {R : List Bytes}

def Unique (u : Setup) (X : Stage) (S : Bytes) (R : List Bytes) : Prop :=
  ∀ s v s' v', Ends u X S R s v → Ends u X S R s' v' → s = s' ∧ v = v'

theorem short_append {t : Bytes} (h : connReplyShort S = false) : connReplyShort (S ++ t) = false := by
  unfold connReplyShort at h ⊢
  simp only [Bool.or_eq_false_iff, decide_eq_false_iff_not, Bool.and_eq_false_iff, not_lt] at h ⊢
  obtain ⟨⟨⟨h4, hv4⟩, hhost⟩, hv6⟩ := h
  have hlen : (S ++ t).length = S.length + t.length := List.length_append
  rw [List.getD_append _ _ _ _ (by omega), hlen]
  refine ⟨⟨⟨by omega, hv4.imp_right (by omega)⟩, ?_⟩, hv6.imp_right (by omega)⟩
  rcases hhost with hhost | hhost
  · exact Or.inl hhost
  · refine Or.inr ?_
    rw [List.getD_append _ _ _ _ (by omega)]
    omega

theorem ready_append {t : Bytes} (h : ready X S = true) : ready X (S ++ t) = true := by
  cases X with
  | greet | auth =>
    have hlen : 2 ≤ S.length := by simpa [ready] using h
    simp [ready]
    omega
  | conn =>
    have hshort : connReplyShort S = false := by simpa [ready] using h
    show (!connReplyShort (S ++ t)) = true
    rw [short_append hshort]
    rfl
  | verify =>
    have hlen : 1 ≤ S.length := by simpa [ready] using h
    simp [ready]
    omega

theorem ready_length (hX : X ≠ .verify) (h : ready X S = true) : 2 ≤ S.length := by
  cases X with
  | greet | auth => simpa [ready] using h
  | conn =>
    have hshort : connReplyShort S = false := by simpa [ready] using h
    unfold connReplyShort at hshort
    simp only [Bool.or_eq_false_iff, decide_eq_false_iff_not] at hshort
    omega
  | verify => exact absurd rfl hX

theorem course_append {t : Bytes} (hX : X ≠ .verify) (h : ready X S = true) :
    course u X (S ++ t) = course u X S := by
  have hlen := ready_length hX h
  have h0 : (S ++ t).getD 0 0 = S.getD 0 0 := List.getD_append _ _ _ _ (by omega)
  have h1 : (S ++ t).getD 1 0 = S.getD 1 0 := List.getD_append _ _ _ _ (by omega)
  have href : refused X (S ++ t) = refused X S := by
    cases X <;> simp only [refused, h0, h1]
  have hpass : passed u X (S ++ t) = passed u X S := by
    cases X with
    | greet => simp only [passed, h1]
    | auth | conn => rfl
    | verify => exact absurd rfl hX
  unfold course
  rw [href, hpass]

theorem ready_of_take {k : Nat} (h : ready X (S.take k) = true) : ready X S = true := by
  rw [← List.take_append_drop k S]
  exact ready_append h

theorem course_take {k : Nat} (hX : X ≠ .verify) (h : ready X (S.take k) = true) :
    course u X (S.take k) = course u X S := by
  rw [← course_append hX h, List.take_append_drop]

/-! ## the courses by what the reply is -/

theorem course_verify (buf : Bytes) : (course u .verify buf).2 = none := by
  rw [course_passed rfl]
  rcases passed_verify u buf with h | h <;> rw [h] <;> rfl

theorem ne_verify {buf : Bytes} (hc : (course u X buf).2 = some Y) : X ≠ .verify := by
  rintro rfl
  rw [course_verify] at hc
  cases hc

variable {s : List TCheckStatus} {v : List Bytes}

theorem Ends.of_short (h : ready X S = false) (hE : Ends u X S R s v) : s = [] ∧ v = [] := by
  cases hE with
  | stalls => exact ⟨rfl, rfl⟩
  | last _ hr _ =>
    rw [ready_of_take hr] at h
    cases h
  | goes _ hr _ _ =>
    rw [ready_of_take hr] at h
    cases h

theorem Ends.of_last (hX : X ≠ .verify) (h : ready X S = true) (hc : (course u X S).2 = none)
    (hE : Ends u X S R s v) : s = (course u X S).1 ∧ v = [] := by
  cases hE with
  | stalls hr =>
    rw [h] at hr
    cases hr
  | last _ hr _ =>
    rw [course_take hX hr]
    exact ⟨rfl, if_neg hX⟩
  | goes _ hr hc' _ =>
    rw [course_take hX hr, hc] at hc'
    cases hc'

theorem Ends.of_verify (h : ready .verify S = true) (hE : Ends u .verify S R s v) :
    ∃ k, 0 < k ∧ k ≤ S.length ∧ s = (course u .verify (S.take k)).1 ∧ v = [S.take k] := by
  cases hE with
  | stalls hr =>
    rw [h] at hr
    cases hr
  | @last _ _ _ k hk hr _ => exact ⟨k, ready_pos hr, hk, rfl, rfl⟩
  | goes _ _ hc _ =>
    rw [course_verify] at hc
    cases hc

theorem Ends.of_goes (h : ready X S = true) (hc : (course u X S).2 = some Y)
    (hE : Ends u X S R s v) :
    ∃ k ≤ S.length, ready X (S.take k) = true ∧ ∃ s', s = (course u X S).1 ++ s' ∧
      Ends u Y (onward u Y (S.drop k) R).1 (onward u Y (S.drop k) R).2 s' v := by
  have hX := ne_verify hc
  cases hE with
  | stalls hr =>
    rw [h] at hr
    cases hr
  | last _ hr hc' =>
    rw [course_take hX hr, hc] at hc'
    cases hc'
  | @goes _ Z _ _ k s' v' hk hr hc' hE' =>
    rw [course_take hX hr] at hc' ⊢
    obtain rfl : Z = Y := Option.some.inj (hc'.symm.trans hc)
    refine ⟨k, hk, hr, s', rfl, ?_⟩
    rw [show shown X (S.take k) = [] from if_neg hX]
    exact hE'

theorem Ends.goes_of {k : Nat} (hk : k ≤ S.length) (hr : ready X (S.take k) = true)
    (hc : (course u X S).2 = some Y)
    (hE : Ends u Y (onward u Y (S.drop k) R).1 (onward u Y (S.drop k) R).2 s v) :
    Ends u X S R ((course u X S).1 ++ s) v := by
  have hX := ne_verify hc
  have hgo := Ends.goes (X := X) hk hr (by rw [course_take hX hr]; exact hc) hE
  rwa [course_take hX hr, show shown X (S.take k) = [] from if_neg hX] at hgo

theorem Ends.verify_of {k : Nat} (h0 : 0 < k) (hk : k ≤ S.length) :
    Ends u .verify S R (course u .verify (S.take k)).1 [S.take k] := by
  refine .last hk ?_ (course_verify _)
  simp [ready]
  omega

theorem Ends.of_refused (h : ready X S = true) (href : refused X S = true) (hE : Ends u X S R s v) :
    s = [.ECheckFail] ∧ v = [] := by
  have hX : X ≠ .verify := by
    rintro rfl
    cases href
  have hc := course_refused (u := u) href
  obtain ⟨rfl, rfl⟩ := hE.of_last hX h (by rw [hc])
  exact ⟨by rw [hc], rfl⟩

theorem ready_tight {k : Nat} (h : Tight X S) (hk : k ≤ S.length) (hr : ready X (S.take k) = true) :
    k = S.length := by
  rcases Nat.lt_or_eq_of_le hk with hlt | heq
  · have hd : S.take k = S.dropLast.take k := by
      rw [List.dropLast_eq_take, List.take_take, Nat.min_eq_left (by omega)]
    rw [hd] at hr
    have hall := ready_of_take hr
    rw [h.2] at hall
    cases hall
  · exact heq

/-- **Exact replies give one course.** -/
theorem Exact.unique (h : Exact u X S R) : Unique u X S R := by
  induction h with
  | short h =>
    intro s v s' v' hE hE'
    obtain ⟨rfl, rfl⟩ := hE.of_short h
    obtain ⟨rfl, rfl⟩ := hE'.of_short h
    exact ⟨rfl, rfl⟩
  | last hX h hc =>
    intro s v s' v' hE hE'
    obtain ⟨rfl, rfl⟩ := hE.of_last hX h hc
    obtain ⟨rfl, rfl⟩ := hE'.of_last hX h hc
    exact ⟨rfl, rfl⟩
  | @verify S R h =>
    intro s v s' v' hE hE'
    have hr : ready .verify S = true := by simp [ready, h]
    obtain ⟨k, h0, hk, rfl, rfl⟩ := hE.of_verify hr
    obtain ⟨k', h0', hk', rfl, rfl⟩ := hE'.of_verify hr
    obtain rfl : k = k' := by omega
    exact ⟨rfl, rfl⟩
  | tight hc h _ ih =>
    intro s v s' v' hE hE'
    obtain ⟨k, hk, hr, t, rfl, ht⟩ := hE.of_goes h.1 hc
    obtain ⟨k', hk', hr', t', rfl, ht'⟩ := hE'.of_goes h.1 hc
    rw [ready_tight h hk hr, List.drop_length] at ht
    rw [ready_tight h hk' hr', List.drop_length] at ht'
    obtain ⟨rfl, rfl⟩ := ih _ _ _ _ ht ht'
    exact ⟨rfl, rfl⟩
  | @refused X Y S R hc h =>
    intro s v s' v' hE hE'
    by_cases hr : ready X S = true
    · obtain ⟨k, hk, hrk, t, rfl, ht⟩ := hE.of_goes hr hc
      obtain ⟨k', hk', hrk', t', rfl, ht'⟩ := hE'.of_goes hr hc
      obtain ⟨hready, href⟩ := h k hk hrk
      obtain ⟨hready', href'⟩ := h k' hk' hrk'
      obtain ⟨rfl, rfl⟩ := ht.of_refused hready href
      obtain ⟨rfl, rfl⟩ := ht'.of_refused hready' href'
      exact ⟨rfl, rfl⟩
    · obtain ⟨rfl, rfl⟩ := hE.of_short (Bool.eq_false_of_not_eq_true hr)
      obtain ⟨rfl, rfl⟩ := hE'.of_short (Bool.eq_false_of_not_eq_true hr)
      exact ⟨rfl, rfl⟩
  | @starved X Y S R hc h =>
    intro s v s' v' hE hE'
    by_cases hr : ready X S = true
    · obtain ⟨k, hk, hrk, t, rfl, ht⟩ := hE.of_goes hr hc
      obtain ⟨k', hk', hrk', t', rfl, ht'⟩ := hE'.of_goes hr hc
      obtain ⟨rfl, rfl⟩ := ht.of_short (h k hk hrk)
      obtain ⟨rfl, rfl⟩ := ht'.of_short (h k' hk' hrk')
      exact ⟨rfl, rfl⟩
    · obtain ⟨rfl, rfl⟩ := hE.of_short (Bool.eq_false_of_not_eq_true hr)
      obtain ⟨rfl, rfl⟩ := hE'.of_short (Bool.eq_false_of_not_eq_true hr)
      exact ⟨rfl, rfl⟩

/-! ## other replies have two courses -/

/-- how many receive states may follow -/
def Stage.left : Stage → Nat
  | .greet => 3
  | .auth => 2
  | .conn => 1
  | .verify => 0

theorem course_goes {buf : Bytes} (hc : (course u X buf).2 = some Y) :
    refused X buf = false ∧ Y.left < X.left ∧ (Y = .auth ∨ Y = .conn ∨ Y = .verify) := by
  have hX := ne_verify hc
  by_cases href : refused X buf = true
  · rw [course_refused href] at hc
    cases hc
  have href' := Bool.eq_false_of_not_eq_true href
  rw [course_passed href'] at hc
  have hreq : (requested u (passed u X buf)).2 = some Y := hc
  refine ⟨href', ?_⟩
  cases X with
  | verify => exact absurd rfl hX
  | greet =>
    unfold passed at hreq
    dsimp only at hreq
    split at hreq
    · cases hreq
      exact ⟨by decide, Or.inr (Or.inl rfl)⟩
    · unfold requested at hreq
      dsimp only at hreq
      split at hreq
      · cases hreq
      · cases hreq
        exact ⟨by decide, Or.inl rfl⟩
  | auth =>
    cases hreq
    exact ⟨by decide, Or.inr (Or.inl rfl)⟩
  | conn =>
    unfold passed at hreq
    dsimp only at hreq
    split at hreq
    · rw [requested_verify] at hreq
      split at hreq
      · cases hreq
      split at hreq
      · cases hreq
      · cases hreq
        exact ⟨by decide, Or.inr (Or.inr rfl)⟩
    · cases hreq

theorem ends_exists (u : Setup) (X : Stage) (S : Bytes) (R : List Bytes) : ∃ s v, Ends u X S R s v := by
  induction h : X.left using Nat.strong_induction_on generalizing X S R with
  | _ n ih =>
    subst h
    by_cases hr : ready X S = true
    · have hall : ready X (S.take S.length) = true := by rwa [List.take_length]
      cases hc : (course u X (S.take S.length)).2 with
      | none => exact ⟨_, _, .last le_rfl hall hc⟩
      | some Y =>
        obtain ⟨s, v, hE⟩ := ih _ (course_goes hc).2.1 Y _ _ rfl
        exact ⟨_, _, .goes le_rfl hall hc hE⟩
    · exact ⟨[], [], .stalls (Bool.eq_false_of_not_eq_true hr)⟩

theorem Ends.head (hX : X ≠ .verify) (h : ready X S = true) (hE : Ends u X S R s v) :
    s.head? = some (if refused X S = true then .ECheckFail else passed u X S) := by
  have hcourse : ∃ l, (course u X S).1 =
      (if refused X S = true then .ECheckFail else passed u X S) :: l := by
    by_cases href : refused X S = true
    · rw [course_refused href, if_pos href]
      exact ⟨[], rfl⟩
    · rw [course_passed (Bool.eq_false_of_not_eq_true href), if_neg href]
      exact ⟨_, rfl⟩
  obtain ⟨l, hl⟩ := hcourse
  cases hc : (course u X S).2 with
  | none =>
    obtain ⟨rfl, -⟩ := hE.of_last hX h hc
    rw [hl]
    rfl
  | some Y =>
    obtain ⟨-, -, -, s', rfl, -⟩ := hE.of_goes h hc
    rw [hl]
    rfl

theorem Unique.behind (h : Unique u X S R) (hc : (course u X S).2 = some Y) {k k' : Nat}
    (hk : k ≤ S.length) (hr : ready X (S.take k) = true) (hk' : k' ≤ S.length)
    (hr' : ready X (S.take k') = true) {s s' : List TCheckStatus} {v v' : List Bytes}
    (hE : Ends u Y (onward u Y (S.drop k) R).1 (onward u Y (S.drop k) R).2 s v)
    (hE' : Ends u Y (onward u Y (S.drop k') R).1 (onward u Y (S.drop k') R).2 s' v') :
    s = s' ∧ v = v' := by
  obtain ⟨hs, hv⟩ := h _ _ _ _ (.goes_of hk hr hc hE) (.goes_of hk' hr' hc hE')
  exact ⟨List.append_cancel_left hs, hv⟩

/-- what passes in a receive state says no when its first byte is lost -/
theorem refused_tail {c : UInt8} {T : Bytes} (hY : Y = .auth ∨ Y = .conn)
    (h : refused Y (c :: T) = false) : refused Y T = true := by
  have hz : T.getD 0 0 = kSocks5RespStatus := by
    rcases hY with rfl | rfl
    · exact (by simpa [refused] using h : _ ∧ _).2
    · exact (by simpa [refused] using h : _ ∧ _).2
  rcases hY with rfl | rfl <;> simp only [refused, hz] <;> rfl

theorem onward_asks (hY : Y = .auth ∨ Y = .conn) :
    onward u Y S R = (S ++ R.headD [], R.tail) := by
  rcases hY with rfl | rfl <;> rfl

theorem passed_ne_fail (buf : Bytes) (hX : X ≠ .verify) : passed u X buf ≠ .ECheckFail := by
  rcases passed_cases u buf hX with h | h | h | ⟨h, -⟩ <;> rw [h] <;> nofun

/-- bytes behind a reply change nothing only where the next step fails or stalls with any of them -/
theorem Unique.loose (h : Unique u X S R) (hc : (course u X S).2 = some Y) (hY : Y = .auth ∨ Y = .conn)
    (hd : ready X S.dropLast = true) :
    (∀ k ≤ S.length, ready X (S.take k) = true →
      ready Y (onward u Y (S.drop k) R).1 = true ∧ refused Y (onward u Y (S.drop k) R).1 = true) ∨
    ∀ k ≤ S.length, ready X (S.take k) = true → ready Y (onward u Y (S.drop k) R).1 = false := by
  have hYv : Y ≠ .verify := by
    rcases hY with rfl | rfl
    · nofun
    · nofun
  by_cases hshort : ∀ k ≤ S.length, ready X (S.take k) = true →
      ready Y (onward u Y (S.drop k) R).1 = false
  · exact Or.inr hshort
  push Not at hshort
  obtain ⟨k1, hk1, hr1, hY1⟩ := hshort
  have hY1' := Bool.eq_true_of_not_eq_false hY1
  obtain ⟨s1, v1, hE1⟩ := ends_exists u Y (onward u Y (S.drop k1) R).1 (onward u Y (S.drop k1) R).2
  have hhead1 := hE1.head hYv hY1'
  -- with any of the bytes the next reply is there, and the verdict is the same
  have hsame : ∀ k ≤ S.length, ready X (S.take k) = true →
      ready Y (onward u Y (S.drop k) R).1 = true ∧
      refused Y (onward u Y (S.drop k) R).1 = refused Y (onward u Y (S.drop k1) R).1 := by
    intro k hk hr
    obtain ⟨s, v, hE⟩ := ends_exists u Y (onward u Y (S.drop k) R).1 (onward u Y (S.drop k) R).2
    obtain ⟨rfl, -⟩ := h.behind hc hk hr hk1 hr1 hE hE1
    have hready : ready Y (onward u Y (S.drop k) R).1 = true := by
      by_contra hno
      obtain ⟨rfl, -⟩ := hE.of_short (Bool.eq_false_of_not_eq_true hno)
      cases hhead1
    refine ⟨hready, ?_⟩
    have hhead := Option.some.inj ((hE.head hYv hready).symm.trans hhead1)
    split at hhead
    · rename_i href
      split at hhead
      · rename_i href1
        rw [href, href1]
      · exact absurd hhead.symm (passed_ne_fail _ hYv)
    · rename_i href
      split at hhead
      · exact absurd hhead (passed_ne_fail _ hYv)
      · rename_i href1
        rw [Bool.eq_false_of_not_eq_true href, Bool.eq_false_of_not_eq_true href1]
  refine Or.inl fun k hk hr => ⟨(hsame k hk hr).1, ?_⟩
  rw [(hsame k hk hr).2]
  -- the last byte in front of the next reply or lost
  have hpos : S ≠ [] := by
    rintro rfl
    rw [List.dropLast_nil, ready_nil] at hd
    cases hd
  have hcut := (hsame (S.length - 1) (Nat.sub_le _ _) (by rwa [← List.dropLast_eq_take])).2
  have hall := (hsame S.length le_rfl (by
    rw [List.take_length]
    exact ready_of_take (k := S.length - 1) (by rwa [← List.dropLast_eq_take]))).2
  rw [onward_asks hY] at hcut hall
  rw [List.drop_length_sub_one hpos] at hcut
  rw [List.drop_length] at hall
  by_contra hno
  rw [Bool.eq_false_of_not_eq_true hno] at hcut hall
  have htail : refused Y (R.headD []) = true := refused_tail hY hcut
  exact Bool.noConfusion (htail.symm.trans hall)

theorem Unique.not_loose_verify (h : Unique u X S R) (hc : (course u X S).2 = some .verify)
    (hd : ready X S.dropLast = true) : False := by
  have hpos : S ≠ [] := by
    rintro rfl
    rw [List.dropLast_nil, ready_nil] at hd
    cases hd
  have hcut : ready X (S.take (S.length - 1)) = true := by rwa [← List.dropLast_eq_take]
  have hall : ready X (S.take S.length) = true := by
    rw [List.take_length]
    exact ready_of_take hcut
  obtain ⟨T, hT, hT'⟩ : ∃ T,
      (onward u .verify (S.drop (S.length - 1)) R).1 = S.getLast hpos :: T ∧
      (onward u .verify (S.drop S.length) R).1 = T := by
    rw [List.drop_length_sub_one hpos, List.drop_length]
    unfold onward
    split
    · exact ⟨_, rfl, rfl⟩
    · exact ⟨_, rfl, rfl⟩
  -- the last byte is shown alone
  have hone : Ends u .verify (onward u .verify (S.drop (S.length - 1)) R).1
      (onward u .verify (S.drop (S.length - 1)) R).2
      (course u .verify [S.getLast hpos]).1 [[S.getLast hpos]] := by
    rw [hT]
    exact .verify_of (k := 1) Nat.one_pos (Nat.le_add_left _ _)
  cases T with
  | nil =>
    obtain ⟨s, v, hE⟩ := ends_exists u .verify (onward u .verify (S.drop S.length) R).1
      (onward u .verify (S.drop S.length) R).2
    obtain ⟨-, rfl⟩ := h.behind hc (Nat.sub_le _ _) hcut le_rfl hall hone hE
    rw [hT'] at hE
    cases (hE.of_short rfl).2
  | cons c T =>
    have htwo : Ends u .verify (onward u .verify (S.drop (S.length - 1)) R).1
        (onward u .verify (S.drop (S.length - 1)) R).2
        (course u .verify [S.getLast hpos, c]).1 [[S.getLast hpos, c]] := by
      rw [hT]
      exact .verify_of (k := 2) Nat.two_pos (Nat.le_add_left _ _)
    obtain ⟨-, hv⟩ := h.behind hc (Nat.sub_le _ _) hcut (Nat.sub_le _ _) hcut hone htwo
    cases hv

/-- **Where all cuts lead through one course, the replies are exact.** -/
theorem Unique.exact (h : Unique u X S R) : Exact u X S R := by
  induction hn : X.left using Nat.strong_induction_on generalizing X S R with
  | _ n ih =>
    subst hn
    by_cases hr : ready X S = true
    swap
    · exact .short (Bool.eq_false_of_not_eq_true hr)
    by_cases hX : X = .verify
    · subst hX
      refine .verify ?_
      have hlen : 1 ≤ S.length := by simpa [ready] using hr
      by_contra hne
      obtain ⟨-, hv⟩ := h _ _ _ _ (.verify_of (k := 1) Nat.one_pos hlen)
        (.verify_of (k := 2) Nat.two_pos (by omega))
      have htake := congrArg List.length (List.cons.inj hv).1
      rw [List.length_take, List.length_take] at htake
      omega
    cases hc : (course u X S).2 with
    | none => exact .last hX hr hc
    | some Y =>
      obtain ⟨-, hleft, hY⟩ := course_goes hc
      by_cases hd : ready X S.dropLast = true
      · rcases hY with hY | hY | rfl
        · rcases h.loose hc (Or.inl hY) hd with hL | hL
          · exact .refused hc hL
          · exact .starved hc hL
        · rcases h.loose hc (Or.inr hY) hd with hL | hL
          · exact .refused hc hL
          · exact .starved hc hL
        · exact (h.not_loose_verify hc hd).elim
      · have ht : Tight X S := ⟨hr, Bool.eq_false_of_not_eq_true hd⟩
        refine .tight hc ht (ih _ hleft ?_ rfl)
        intro s v s' v' hE hE'
        have hall : ready X (S.take S.length) = true := by rwa [List.take_length]
        rw [← List.drop_length (l := S)] at hE hE'
        exact h.behind hc le_rfl hall le_rfl hall hE hE'

end

/-! ## the exchange from its start -/

def greeted : List TCheckStatus := [.ECheckInit, .EConnProxySucc, .EProxySocks5GreetReq]

theorem write_opened (u : Setup) (replies : List Bytes) :
    ∃ x, write u (opened u replies) = some x ∧ At u .greet x ∧ x.fsm.recv_buf_ = [] ∧
      x.flight = replies.headD [] ∧ x.replies = replies.tail ∧ x.seen = greeted ∧
      x.presented = [] := by
  have hw := write_sent (u := u) (x := opened u replies)
    (b := { own := ⟨u.o.observer_, .EProxySocks5GreetReq⟩, send_buf_ := socks5_greet_data u.p })
    rfl rfl rfl (List.cons_ne_nil _ _)
  refine ⟨_, hw, ?_, rfl, rfl, rfl, rfl, rfl⟩
  refine ⟨rfl, rfl, rfl, rfl, rfl, ?_, rfl⟩
  nofun

theorem run_courses (u : Setup) (replies : List Bytes) {cut : List Nat} {y : Exchange}
    (h : run u replies cut = some y) (hy : Complete y) :
    ∃ s, y.seen = greeted ++ s ∧
      Ends u .greet (replies.headD []) replies.tail s y.presented := by
  obtain ⟨x, hx, hA, hrecv, hflight, hrep, hseen, hpres⟩ := write_opened u replies
  obtain ⟨z, hz, hl⟩ := Option.bind_eq_some_iff.mp h
  cases hx.symm.trans hz
  obtain ⟨s, v, hE, hs, hv⟩ := run_ends hA hl hy
  rw [hrecv, List.nil_append, hflight, hrep] at hE
  rw [hpres, List.nil_append] at hv
  rw [hseen] at hs
  rw [hv]
  exact ⟨s, hs, hE⟩

theorem courses_run (u : Setup) (replies : List Bytes) {s : List TCheckStatus} {v : List Bytes}
    (hE : Ends u .greet (replies.headD []) replies.tail s v) :
    ∃ cut y, run u replies cut = some y ∧ Complete y ∧ y.seen = greeted ++ s ∧
      y.presented = v := by
  obtain ⟨x, hx, hA, hrecv, hflight, hrep, hseen, hpres⟩ := write_opened u replies
  obtain ⟨l, y, hl, hy, hs, hv⟩ := ends_run hE hA hrecv hflight hrep
  rw [hseen] at hs
  rw [hpres, List.nil_append] at hv
  exact ⟨l, y, Option.bind_eq_some_iff.mpr ⟨x, hx, hl⟩, hy, hs, hv⟩

/-- **What is seen and shown does not depend on the cut exactly where the replies are exact.** -/
theorem whole_iff (u : Setup) (replies : List Bytes) :
    Whole u replies ↔ Exact u .greet (replies.headD []) replies.tail := by
  constructor
  · intro h
    refine Unique.exact ?_
    intro s v s' v' hE hE'
    obtain ⟨cut, y, hr, hy, hs, rfl⟩ := courses_run u replies hE
    obtain ⟨cut', y', hr', hy', hs', rfl⟩ := courses_run u replies hE'
    obtain ⟨hseen, hpres⟩ := h cut cut' y y' hr hy hr' hy'
    rw [hs, hs'] at hseen
    exact ⟨List.append_cancel_left hseen, hpres⟩
  · intro h cut cut' y y' hr hy hr' hy'
    obtain ⟨s, hs, hE⟩ := run_courses u replies hr hy
    obtain ⟨s', hs', hE'⟩ := run_courses u replies hr' hy'
    obtain ⟨rfl, hv⟩ := h.unique _ _ _ _ hE hE'
    exact ⟨hs.trans hs'.symm, hv⟩

/-- no account, and an observer that waits for "OK" -/
def plain : Setup where
  p := ⟨ascii "1.2.3.4", [1, 2, 3, 4], 80, [], []⟩
  o := ⟨true, true, true, ascii "hi", fun buf => buf == ascii "OK"⟩
  errno := none

def answered : List Bytes := [[5, 0], [5, 0, 0, 1, 9, 9, 9, 9, 0, 80], ascii "OK"]

/-- the answer passes in one piece and fails in two -/
theorem answer_cut : ¬ Whole plain answered ∧
    (run plain answered [2, 10, 2]).any (·.fsm.own.check_status_ == .ECheckOK) = true ∧
    (run plain answered [2, 10, 1]).any (·.fsm.own.check_status_ == .ECheckFail) = true := by
  refine ⟨?_, rfl, rfl⟩
  intro h
  obtain ⟨hseen, -⟩ := h [2, 10, 2] [2, 10, 1] _ _ rfl (Or.inl rfl) rfl (Or.inl rfl)
  cases hseen

end Socks5
