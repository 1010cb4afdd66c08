import LearnDiary.Http.Termination
import LearnDiary.Http.Append

/-!
# Sound calls

A call on a parser without error all of whose iterations are `Sound` is left, never leaves the
received bytes, and is a run of `viewTurn` on them.

* `not_stuck`     a receiver, no error and fewer than `2^31` bytes: the loop is left;
* `sound_run`     the machine from a state with `Inv`;
* `recv_sound`    the same for `Recv(const void*, size_t)`;
* `soundCalls_of_within`  whether concrete calls are sound is computed by running them.
-/

namespace Http
open Loop

theorem not_bodyStuck {c : Core} {n : Nat} (h : n < 2 ^ 31) (hr : c.bodyreceiver_ ≠ none) :
    ¬ bodyStuck c n := by
  unfold bodyStuck
  intro hs
  split at hs
  · rename_i e
    exact hr e
  · omega

theorem not_headersStuck {c : Core} {b : AutoBuffer} (h : b.length_ < 2 ^ 31)
    (hr : c.bodyreceiver_ ≠ none) : ¬ headersStuck c b := by
  unfold headersStuck
  split
  · rename_i pos c' e
    rw [(headerFields_hit e).2]
    exact not_bodyStuck (by omega) hr
  · exact id

/-- fewer than `2^31` bytes, a receiver and no error: the loop is left -/
theorem not_stuck {o : Overload} {c : Core} {b : AutoBuffer} (h : b.length_ < 2 ^ 31)
    (hr : c.bodyreceiver_ ≠ none) (he : c.recvstatus_.error = false) : ¬ Stuck o c b := by
  have hline : ¬ lineStuck o c b := by
    unfold lineStuck
    split
    · rename_i pos c' e
      have hr' : c'.bodyreceiver_ ≠ none := by
        rw [(parseFirstLine_keeps (firstLine_hit e).2).1]
        exact hr
      split
      · exact not_bodyStuck (by omega) hr'
      · exact not_headersStuck (by rw [AutoBuffer.move_length]; omega) hr'
    · exact id
  unfold Stuck
  split
  · exact hline
  · exact hline
  · exact not_headersStuck h hr
  · exact not_bodyStuck h hr
  · exact id
  · rename_i e
    rw [e] at he
    cases he
  · rename_i e
    rw [e] at he
    cases he
  · rename_i e
    rw [e] at he
    cases he

theorem sound_fair {o : Overload} {s : Mem} (hs : Sound o s) (hi : Inv s) :
    Fair (view s).1 (view s).2 := by
  intro hb hc r hr
  obtain ⟨r', hr', _, hw⟩ := hi.within
  rw [show (view s).1 = s.1 from rfl] at hb hc hr
  rw [hr] at hr'
  cases hr'
  obtain ⟨h0, h2⟩ := (hs.declared hb r hr).2 hc
  refine ⟨h0, hw hb hc h0, ?_⟩
  rw [show (view s).2 = s.2.data from rfl, s.2.data_length]
  exact h2

section
variable {o : Overload} {s : Mem}

theorem sound_reaches (hi : Inv s) (hs : ∀ u, Reaches (turnOn o) s u → Sound o u) {u : Mem}
    (hu : Reaches (turnOn o) s u) : Kept s u ∧ Sound o u := by
  induction hu with
  | refl => exact ⟨.refl hi, hs _ (.refl _)⟩
  | step e _ ih =>
    have h1 := turnOn_keep (hs _ (.refl _)) hi (Or.inl e)
    obtain ⟨h2, h3⟩ := ih h1.inv (fun u hu => hs u (.step e hu))
    exact ⟨h1.trans h2, h3⟩

theorem sound_wild (hi : Inv s) (hs : ∀ u, Reaches (turnOn o) s u → Sound o u) {u : Mem}
    (hu : Reaches (turnOn o) s u) : turnOn o u ≠ .wild := by
  obtain ⟨h1, h2⟩ := sound_reaches hi hs hu
  intro hw
  have e := turnOn_view h2 h1.inv
  rw [hw] at e
  exact viewTurn_ne_wild o _ e.symm

/-- **A run of sound iterations is left, and is a run on the received bytes.** -/
theorem sound_run (hi : Inv s) (hs : ∀ u, Reaches (turnOn o) s u → Sound o u)
    (he : s.1.recvstatus_.error = false) :
    ∃ t, Returns (turnOn o) s t ∧ Kept s t ∧ Returns (viewTurn o) (view s) (view t) ∧
      ∀ u, Reaches (viewTurn o) (view s) u → Fair u.1 u.2 := by
  have hr : s.1.bodyreceiver_ ≠ none := by
    obtain ⟨r, hr, _⟩ := hi.within
    rw [hr]
    exact Option.some_ne_none r
  have hstops := (stops_iff o s.1 s.2).mpr (not_stuck hi.small hr he)
  obtain ⟨t, ht⟩ := hstops.returns (fun u hu => sound_wild hi hs hu)
  have hP : ∀ u, Reaches (turnOn o) s u → Inv u ∧ Sound o u := fun u hu =>
    ⟨(sound_reaches hi hs hu).1.inv, (sound_reaches hi hs hu).2⟩
  refine ⟨t, ht, ?_, ?_, ?_⟩
  · obtain ⟨u, hu, e⟩ := ht.last
    exact (sound_reaches hi hs hu).1.trans (turnOn_keep (hP u hu).2 (hP u hu).1 (Or.inr e))
  · exact ht.map (P := fun u => Inv u ∧ Sound o u) (fun u hu => turnOn_view hu.2 hu.1) hP
  · intro u hu
    obtain ⟨v, hv, rfl⟩ := hu.lift (P := fun u => Inv u ∧ Sound o u)
      (fun u hu => turnOn_view hu.2 hu.1) hP
    exact sound_fair (hP v hv).2 (hP v hv).1

end

def SoundCall (p : Parser) (_buffer : Bytes) : Prop :=
  ∀ s, Reaches recvTurn (enter p _buffer) s → Sound rawOverload s.mem

/-- every iteration of the calls for the pieces is sound, and no call is made on a parser in an
error status -/
def SoundCalls : Parser → List Bytes → Prop
  | _, [] => True
  | p, piece :: pieces =>
    p.recvstatus_.error = false ∧ SoundCall p piece ∧ ∀ q, Recv p piece q → SoundCalls q pieces

theorem enter_reaches {p : Parser} {d : Bytes} (hs : SoundCall p d) {u : Mem}
    (hu : Reaches (turnOn rawOverload) (p.toCore, p.recvbuf_.write d) u) : Sound rawOverload u := by
  rw [← enter_mem] at hu
  obtain ⟨v, hv, rfl⟩ := hu.lift (P := fun _ => True) (fun s _ => recvTurn_sim s)
    (fun _ _ => trivial)
  exact hs v hv

theorem write_length {b : AutoBuffer} (h : b.Tail) (d : Bytes) :
    (b.write d).length_ = b.length_ + d.length := by
  rw [← AutoBuffer.data_length, AutoBuffer.write_data _ _ h.pos, List.length_append,
    AutoBuffer.data_length]

/-- **A sound call returns, and is a run on the received bytes.** -/
theorem recv_sound {p : Parser} {d : Bytes} (hd : d ≠ []) (ht : p.recvbuf_.Tail)
    (hw : Within p.toCore) (hlen : p.recvbuf_.length_ + d.length < 2 ^ 31)
    (he : p.recvstatus_.error = false) (hs : SoundCall p d) :
    ∃ q, Recv p d q ∧ Kept (p.toCore, p.recvbuf_.write d) q.mem ∧
      Returns (viewTurn rawOverload) (p.toCore, p.recvbuf_.data ++ d) (view q.mem) ∧
      ∀ u, Reaches (viewTurn rawOverload) (p.toCore, p.recvbuf_.data ++ d) u → Fair u.1 u.2 := by
  have hi : Inv (p.toCore, p.recvbuf_.write d) := by
    refine ⟨?_, hw⟩
    show (p.recvbuf_.write d).length_ < 2 ^ 31
    rw [write_length ht]
    exact hlen
  obtain ⟨t, h1, h2, h3, h4⟩ := sound_run hi (fun u hu => enter_reaches hs hu) he
  obtain ⟨q, hq, rfl⟩ := mem_recv hd h1
  rw [show view (p.toCore, p.recvbuf_.write d) = (p.toCore, p.recvbuf_.data ++ d) by
    unfold view; rw [AutoBuffer.write_data _ _ ht.pos]] at h3 h4
  exact ⟨q, hq, h2, h3, h4⟩

/-! ## checking concrete calls -/

/-- all iterations up to the end of the loop, at most `n` of them -/
def soundWithin : Nat → Parser → Bool
  | 0, _ => false
  | n + 1, p =>
    decide (Declared p.toCore p.recvbuf_) && decide (Contained rawOverload p.toCore p.recvbuf_) &&
      match recvTurn p with
      | .again q => soundWithin n q
      | _ => true

def soundCallsWithin (n : Nat) : Parser → List Bytes → Bool
  | _, [] => true
  | p, piece :: pieces =>
    !p.recvstatus_.error && !piece.isEmpty && soundWithin n (enter p piece) &&
      match iter recvTurn n (enter p piece) with
      | .ret q => soundCallsWithin n q pieces
      | _ => false

theorem soundCall_of_within {n : Nat} {p : Parser} (h : soundWithin n p = true) :
    ∀ s, Reaches recvTurn p s → Sound rawOverload s.mem := by
  induction n generalizing p with
  | zero => cases h
  | succ n ih =>
    unfold soundWithin at h
    simp only [Bool.and_eq_true, decide_eq_true_eq] at h
    intro s hs
    cases hs with
    | refl => exact ⟨h.1.1, h.1.2⟩
    | step e hs =>
      rw [e] at h
      exact ih h.2 s hs

theorem soundCalls_of_within {n : Nat} {p : Parser} {pieces : List Bytes}
    (h : soundCallsWithin n p pieces = true) : SoundCalls p pieces := by
  induction pieces generalizing p with
  | nil => exact trivial
  | cons piece pieces ih =>
    unfold soundCallsWithin at h
    simp only [Bool.and_eq_true, Bool.not_eq_true'] at h
    obtain ⟨⟨⟨h1, h2⟩, h3⟩, h4⟩ := h
    refine ⟨h1, soundCall_of_within h3, fun q hq => ?_⟩
    unfold Recv at hq
    rw [if_neg (by intro e; rw [e] at h2; cases h2)] at hq
    split at h4
    · rename_i q' hq'
      rw [hq.det (Returns.of_iter hq')]
      exact ih h4
    · cases h4

end Http
