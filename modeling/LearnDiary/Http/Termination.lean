import LearnDiary.Http.Machine

/-!
# When the loops of `Recv` are left

The loop is over after finitely many iterations unless it comes into one of the states `Stuck`
describes; then it never is.

* `bodyTurn_chunk`     an iteration that goes on behind a chunk has consumed bytes;
* `bodyTurn_fixed`     an iteration with a fixed length goes on only from `bodyStuck`;
* `stops_iff`          the machine stops exactly from the states that are not `Stuck`;
* `recv_ends_iff`      the same for the two overloads.
-/

namespace Http
open Loop

/-- bytes nobody takes: no receiver, or a fixed-length body of which `(int)Length()` is not the
number of buffered bytes while less than the announced length has arrived -/
def bodyStuck (c : Core) (length : Nat) : Prop :=
  match c.bodyreceiver_ with
  | none => length ≠ 0
  | some r =>
    c.headfields_.isTransferEncodingChunked = false ∧ 2 ^ 31 ≤ length ∧
      toInt32 length ≠ -2 ^ 31 ∧
      toInt32 ((length + r.total_length_ : Nat) : Int) < c.headfields_.contentLength

/-- the header ends and its body is stuck -/
def headersStuck (c : Core) (b : AutoBuffer) : Prop :=
  match headerFields c b with
  | .hit pos c' => bodyStuck c' (b.length_ - (pos + 4))
  | _ => False

/-- the first line is accepted and what stands behind it is stuck -/
def lineStuck (o : Overload) (c : Core) (b : AutoBuffer) : Prop :=
  match firstLine c b with
  | .hit pos c' =>
    if o.headless = true ∧ search b crlf2 = .found pos then
      bodyStuck c' (b.length_ - (pos + 2 + 2))
    else headersStuck { c' with recvstatus_ := .kHeaderFields } (b.move (-((pos + 2 : Nat) : Int)))
  | _ => False

/-- the loop entered with this status, these fields and this buffer is never left -/
def Stuck (o : Overload) (c : Core) (b : AutoBuffer) : Prop :=
  match c.recvstatus_ with
  | .kStart | .kFirstLine => lineStuck o c b
  | .kHeaderFields => headersStuck c b
  | .kBody => bodyStuck c b.length_
  | .kEnd => False
  | .kFirstLineError | .kHeaderFieldsError | .kBodyError => True

/-! ## one iteration of the body -/

theorem bodyTurn_chunk {c : Core} {b : AutoBuffer} {g : Nat} {r : BodyReceiver} {t : Mem}
    (hr : c.bodyreceiver_ = some r) (hc : c.headfields_.isTransferEncodingChunked = true)
    (h : bodyTurn c b g = .again t) :
    t.1.recvstatus_ = .kEnd ∨
      (t.1.recvstatus_ = c.recvstatus_ ∧ t.1.headfields_ = c.headfields_ ∧
        (∃ r', t.1.bodyreceiver_ = some r') ∧ t.2.length_ < b.length_) := by
  unfold bodyTurn at h
  simp only [hr, hc, if_true] at h
  split at h
  · cases h
  · cases h
  · cases h
  · rename_i off len move ha
    obtain ⟨pos, n, hpos, _, _, _, _, _, _, _, _, hm⟩ := chunkAct_append ha
    have hle := search_found_le crlf_ne hpos
    have h2 : crlf.length = 2 := rfl
    obtain ⟨rfl, _⟩ := idle_again h
    refine Or.inr ⟨rfl, rfl, ⟨_, rfl⟩, ?_⟩
    rw [AutoBuffer.move_length]
    omega
  · obtain ⟨rfl, _⟩ := idle_again h
    exact Or.inl rfl

/-- delivering `(int)Length()` bytes counts like delivering all of them -/
theorem toInt32_total (l d : Nat) : toInt32 (d + toInt32 l) = toInt32 ((l + d : Nat) : Int) := by
  have h := toInt32_dvd l
  exact toInt32_congr (by omega)

theorem move_toInt32 (b : AutoBuffer) {a : Int} (h : a ≤ b.length_) :
    ((b.move (-a)).length_ : Int) = b.length_ - a := by
  unfold AutoBuffer.move
  split
  · show ((b.length_ + (-a).toNat : Nat) : Int) = _
    omega
  · show ((b.length_ - (- -a).toNat : Nat) : Int) = _
    omega

/-- the state a stuck body with a fixed length comes into -/
def fixedSpin (c : Core) (b : AutoBuffer) (r : BodyReceiver) : Mem :=
  ({ c with bodyreceiver_ := some (r.appendData b.parray_ (toSizeT (toInt32 b.length_))) },
    b.move (-toInt32 b.length_))

theorem fixedSpin_snd (c : Core) (b : AutoBuffer) (r : BodyReceiver) :
    (fixedSpin c b r).2 = b.move (-toInt32 b.length_) := rfl

theorem bodyTurn_fixed {c : Core} {b : AutoBuffer} {r : BodyReceiver} (g : Nat)
    (hr : c.bodyreceiver_ = some r) (hc : c.headfields_.isTransferEncodingChunked = false) :
    (∀ t, bodyTurn c b g ≠ .again t) ∨
      (bodyStuck c b.length_ ∧ bodyTurn c b g = .again (fixedSpin c b r)) := by
  obtain ⟨hlo, hhi⟩ := contentLength_range c.headfields_
  unfold bodyTurn
  simp only [hr, hc, Bool.false_eq_true, if_false]
  cases ha : appendLen c.headfields_.contentLength b.length_ r.total_length_ with
  | none => exact Or.inl (fun t h => by cases h)
  | some a =>
    obtain ⟨hX, ha1, ha2⟩ := appendLen_some ha
    have ht : toInt32 ((r.appendData b.parray_ (toSizeT a)).total_length_ : Int)
        = toInt32 (r.total_length_ + a) := toInt32_sizeT r.total_length_ a
    simp only [ht]
    by_cases hle : toInt32 ((b.length_ + r.total_length_ : Nat) : Int) ≤ c.headfields_.contentLength
    · rw [if_pos hle] at hX
      have e : toInt32 (r.total_length_ + a)
          = toInt32 ((b.length_ + r.total_length_ : Nat) : Int) := by
        rw [hX]
        exact toInt32_total b.length_ r.total_length_
      rw [e]
      by_cases heq : toInt32 ((b.length_ + r.total_length_ : Nat) : Int) = c.headfields_.contentLength
      · rw [if_pos heq]
        exact Or.inl (fun t h => by cases h)
      · rw [if_neg heq]
        have hlen := move_toInt32 b (a := a) (by rw [hX]; exact toInt32_le _)
        by_cases h0 : (b.move (-a)).length_ = 0
        · left
          intro t h
          exact (idle_again h).2 h0
        · right
          have hbig : 2 ^ 31 ≤ b.length_ := by
            by_contra hsmall
            have := toInt32_of_lt (n := b.length_) (by omega)
            omega
          refine ⟨?_, ?_⟩
          · unfold bodyStuck
            rw [hr]
            exact ⟨hc, hbig, by omega, by omega⟩
          · unfold idle
            rw [if_neg h0, hX]
            rfl
    · left
      rw [if_neg hle] at hX
      have hdvd := toInt32_dvd r.total_length_
      have e : toInt32 (r.total_length_ + a) = c.headfields_.contentLength := by
        rw [toInt32_congr (n := c.headfields_.contentLength) (by omega), toInt32_eq hlo hhi]
      rw [if_pos e]
      exact fun t h => by cases h

theorem bodyStuck_fixed {c : Core} {b : AutoBuffer} {r : BodyReceiver}
    (hr : c.bodyreceiver_ = some r) (hs : bodyStuck c b.length_) (g : Nat) :
    bodyTurn c b g = .again (fixedSpin c b r) := by
  unfold bodyStuck at hs
  rw [hr] at hs
  obtain ⟨hc, hbig, hmin, hlt⟩ := hs
  rcases bodyTurn_fixed (b := b) g hr hc with h | h
  · exfalso
    have hhi := toInt32_lt b.length_
    have hlo := le_toInt32 b.length_
    have ha : appendLen c.headfields_.contentLength b.length_ r.total_length_
        = some (toInt32 b.length_) := by
      unfold appendLen
      rw [if_pos (by omega), if_pos (by omega)]
    have e := toInt32_total b.length_ r.total_length_
    have ht : toInt32 ((r.appendData b.parray_ (toSizeT (toInt32 b.length_))).total_length_ : Int)
        ≠ c.headfields_.contentLength := by
      show toInt32 (((r.total_length_ + toSizeT (toInt32 b.length_)) % 2 ^ 64 : Nat) : Int) ≠ _
      rw [toInt32_sizeT, e]
      omega
    have hlen := move_toInt32 b (toInt32_le b.length_)
    apply h (fixedSpin c b r)
    unfold bodyTurn idle
    simp only [hr, hc, Bool.false_eq_true, if_false, ha, ht]
    rw [if_neg (by omega)]
    rfl
  · exact h.2

theorem fixedSpin_self {c : Core} {b : AutoBuffer} {r : BodyReceiver}
    (hr : c.bodyreceiver_ = some r) (h0 : toInt32 b.length_ = 0) (ht : r.total_length_ < 2 ^ 64) :
    fixedSpin c b r = (c, b) := by
  have hz : toSizeT 0 = 0 := toSizeT_of_lt (n := 0) (by norm_num)
  have happ : r.appendData b.parray_ 0 = r := by
    unfold BodyReceiver.appendData
    rw [List.take_zero, List.append_nil, Nat.add_zero, Nat.mod_eq_of_lt ht]
  unfold fixedSpin
  rw [h0, hz, happ, neg_zero, AutoBuffer.move_zero, ← hr]

theorem fixedSpin_spins {c : Core} {b : AutoBuffer} {r : BodyReceiver}
    (hr : c.bodyreceiver_ = some r) (hs : bodyStuck c b.length_) (g : Nat) :
    bodyTurn (fixedSpin c b r).1 (fixedSpin c b r).2 g = .again (fixedSpin c b r) := by
  have hs' := hs
  unfold bodyStuck at hs'
  rw [hr] at hs'
  obtain ⟨hc, hbig, hmin, hlt⟩ := hs'
  generalize hb1 : (fixedSpin c b r).2 = b1
  generalize hc1 : (fixedSpin c b r).1 = c1
  generalize hr1 : r.appendData b.parray_ (toSizeT (toInt32 b.length_)) = r1
  have hrec : c1.bodyreceiver_ = some r1 := by
    rw [← hc1, ← hr1]
    rfl
  have hfields : c1.headfields_ = c.headfields_ := by rw [← hc1]; rfl
  have hlen : (b1.length_ : Int) = b.length_ - toInt32 b.length_ := by
    rw [← hb1, fixedSpin_snd]
    exact move_toInt32 b (toInt32_le b.length_)
  have hhi := toInt32_lt b.length_
  have hdvd := toInt32_dvd b.length_
  have hzero : toInt32 b1.length_ = 0 := by
    rw [hlen, toInt32_congr (n := 0) (by omega)]
    exact toInt32_eq (by norm_num) (by norm_num)
  have htot : r1.total_length_ = (r.total_length_ + toSizeT (toInt32 b.length_)) % 2 ^ 64 := by
    rw [← hr1]
    rfl
  have hcong : toInt32 ((b1.length_ + r1.total_length_ : Nat) : Int)
      = toInt32 ((b.length_ + r.total_length_ : Nat) : Int) := by
    have h1 := toInt32_sizeT r.total_length_ (toInt32 b.length_)
    rw [← htot] at h1
    rw [toInt32_add_dvd (by rw [hlen]; exact hdvd), h1]
    exact toInt32_total b.length_ r.total_length_
  have hstuck : bodyStuck c1 b1.length_ := by
    unfold bodyStuck
    rw [hrec, hfields]
    exact ⟨hc, by omega, by rw [hzero]; norm_num, by rw [hcong]; exact hlt⟩
  have hself := fixedSpin_self hrec hzero (by rw [htot]; omega)
  have hturn := bodyStuck_fixed hrec hstuck g
  rw [hself] at hturn
  rw [hturn, ← hc1, ← hb1]

/-! ## the machine -/

theorem stops_chunked (o : Overload) {c : Core} {b : AutoBuffer} {r : BodyReceiver}
    (hb : c.recvstatus_ = .kBody) (hr : c.bodyreceiver_ = some r)
    (hc : c.headfields_.isTransferEncodingChunked = true) : Stops (turnOn o) (c, b) := by
  -- the buffer shrinks until the message ends
  refine Stops.of_measure
    (fun s => s.1.recvstatus_ = .kEnd ∨ (s.1.recvstatus_ = .kBody ∧
      s.1.headfields_.isTransferEncodingChunked = true ∧ ∃ r, s.1.bodyreceiver_ = some r))
    (fun s => if s.1.recvstatus_ = .kEnd then 0 else s.2.length_ + 1) ?_
    (Or.inr ⟨hb, hc, r, hr⟩)
  rintro ⟨c, b⟩ t (hend | ⟨hb, hc, r, hr⟩) hturn
  · replace hend : c.recvstatus_ = .kEnd := hend
    unfold turnOn at hturn
    simp only [hend] at hturn
    cases hturn
  · replace hb : c.recvstatus_ = .kBody := hb
    rw [turnOn_body o b hb] at hturn
    rcases bodyTurn_chunk hr hc hturn with hend | ⟨h1, h2, h3, h4⟩
    · exact ⟨Or.inl hend, by simp [hend, hb]⟩
    · refine ⟨Or.inr ⟨h1.trans hb, by rw [h2]; exact hc, h3⟩, ?_⟩
      replace h1 : t.1.recvstatus_ = .kBody := h1.trans hb
      simpa [h1, hb] using h4

theorem stops_body (o : Overload) {c : Core} (b : AutoBuffer) (hb : c.recvstatus_ = .kBody) :
    Stops (turnOn o) (c, b) ↔ ¬ bodyStuck c b.length_ := by
  have hturn := turnOn_body o b hb
  cases hr : c.bodyreceiver_ with
  | none =>
    have e : bodyTurn c b (o.guard b.length_) = idle c b := by
      unfold bodyTurn
      simp only [hr]
    rw [e] at hturn
    unfold bodyStuck
    rw [hr]
    unfold idle at hturn
    by_cases h0 : b.length_ = 0
    · rw [if_pos h0] at hturn
      exact ⟨fun _ h => h h0, fun _ => stops_ret hturn⟩
    · rw [if_neg h0] at hturn
      exact ⟨fun h => absurd h (not_stops_of_spin hturn), fun h => absurd h0 h⟩
  | some r =>
    cases hc : c.headfields_.isTransferEncodingChunked with
    | true =>
      refine ⟨fun _ h => ?_, fun _ => stops_chunked o hb hr hc⟩
      unfold bodyStuck at h
      rw [hr] at h
      rw [hc] at h
      exact Bool.noConfusion h.1
    | false =>
      constructor
      · intro h hs
        rw [bodyStuck_fixed hr hs] at hturn
        rw [stops_again hturn] at h
        refine not_stops_of_spin ?_ h
        have hb' : (fixedSpin c b r).1.recvstatus_ = .kBody := hb
        have hspin := fixedSpin_spins hr hs
        generalize fixedSpin c b r = s at hb' hspin
        show turnOn o (s.1, s.2) = .again s
        rw [turnOn_body o _ hb']
        exact hspin _
      · intro hs
        rcases bodyTurn_fixed (o.guard b.length_) hr hc with h | h
        · cases e : bodyTurn c b (o.guard b.length_) with
          | again t => exact absurd e (h t)
          | ret t => rw [e] at hturn; exact stops_ret hturn
          | wild => rw [e] at hturn; exact stops_wild hturn
        · exact absurd h.1 hs

theorem stops_headers (o : Overload) {c : Core} (b : AutoBuffer)
    (hb : c.recvstatus_ = .kHeaderFields) :
    Stops (turnOn o) (c, b) ↔ ¬ headersStuck c b := by
  unfold headersStuck
  cases h : headerFields c b with
  | wild =>
    have hturn : turnOn o (c, b) = .wild := by unfold turnOn; simp only [hb, h]
    exact ⟨fun _ => id, fun _ => stops_wild hturn⟩
  | ret c' =>
    have hturn : turnOn o (c, b) = .ret (c', b) := by unfold turnOn; simp only [hb, h]
    exact ⟨fun _ => id, fun _ => stops_ret hturn⟩
  | hit pos c' =>
    have hturn : turnOn o (c, b) = .again (c', b.move (-((pos + 4 : Nat) : Int))) := by
      unfold turnOn
      simp only [hb, h]
    have hb' : c'.recvstatus_ = .kBody := by rw [(headerFields_hit h).2]
    rw [stops_again hturn, stops_body o _ hb', AutoBuffer.move_length]

theorem stops_line (o : Overload) {c : Core} (b : AutoBuffer)
    (hb : c.recvstatus_ = .kStart ∨ c.recvstatus_ = .kFirstLine) :
    Stops (turnOn o) (c, b) ↔ ¬ lineStuck o c b := by
  unfold lineStuck
  cases h : firstLine c b with
  | wild =>
    have hturn : turnOn o (c, b) = .wild := by
      unfold turnOn
      rcases hb with hb | hb
      · simp only [hb, h]
      · simp only [hb, h]
    exact ⟨fun _ => id, fun _ => stops_wild hturn⟩
  | ret c' =>
    have hturn : turnOn o (c, b) = .ret (c', b) := by
      unfold turnOn
      rcases hb with hb | hb
      · simp only [hb, h]
      · simp only [hb, h]
    exact ⟨fun _ => id, fun _ => stops_ret hturn⟩
  | hit pos c' =>
    have hturn : turnOn o (c, b) = .again ({ c' with recvstatus_ := (afterLine o b pos).1 },
        b.move (-((afterLine o b pos).2 : Int))) := by
      unfold turnOn
      rcases hb with hb | hb
      · simp only [hb, h]
      · simp only [hb, h]
    rw [stops_again hturn]
    by_cases hh : o.headless = true ∧ search b crlf2 = .found pos
    · simp only [afterLine, if_pos hh]
      rw [stops_body o _ rfl, AutoBuffer.move_length]
      rfl
    · simp only [afterLine, if_neg hh]
      exact stops_headers o _ rfl

/-- the machine leaves its loop exactly from the states that are not stuck -/
theorem stops_iff (o : Overload) (c : Core) (b : AutoBuffer) :
    Stops (turnOn o) (c, b) ↔ ¬ Stuck o c b := by
  unfold Stuck
  cases e : c.recvstatus_ with
  | kStart => exact stops_line o b (Or.inl e)
  | kFirstLine => exact stops_line o b (Or.inr e)
  | kHeaderFields => exact stops_headers o b e
  | kBody => exact stops_body o b e
  | kEnd =>
    have hturn : turnOn o (c, b) = .ret (c, b) := by unfold turnOn; simp only [e]
    exact ⟨fun _ => id, fun _ => stops_ret hturn⟩
  | kFirstLineError | kHeaderFieldsError | kBodyError =>
    have hturn : turnOn o (c, b) = .again (c, b) := by unfold turnOn; simp only [e]
    exact ⟨fun h => absurd h (not_stops_of_spin hturn), fun h => absurd trivial h⟩

/-! ## the overloads -/

/-- the loop of `Recv(const void*, size_t)` is over after finitely many iterations; an empty
buffer does not come to it -/
def RecvEnds (p : Parser) (_buffer : Bytes) : Prop :=
  _buffer = [] ∨ Stops recvTurn (enter p _buffer)

/-- the same for `Recv(AutoBuffer&)` -/
def RecvBufferEnds (p : Parser) (_recv_buffer : AutoBuffer) : Prop :=
  _recv_buffer.length_ = 0 ∨ Stops recvBufferTurn (capture p _recv_buffer.data, _recv_buffer)

theorem recvTurn_stops (p : Parser) (d : Bytes) :
    Stops recvTurn (enter p d) ↔ ¬ Stuck rawOverload p.toCore (p.recvbuf_.write d) := by
  rw [← stops_iff, ← enter_mem]
  exact stops_map (P := fun _ => True) (fun s _ => recvTurn_sim s) (fun _ _ _ _ => trivial) trivial

theorem recvBufferTurn_stops (p : Parser) (b : AutoBuffer) :
    Stops recvBufferTurn (capture p b.data, b) ↔
      ¬ Stuck (bufferOverload p.recvbuf_.length_) p.toCore b := by
  obtain ⟨h1, h2⟩ := capture_core p b.data
  rw [← stops_iff, stops_map (f := bufMem) (g := turnOn (bufferOverload p.recvbuf_.length_))
    (P := fun t => t.1.recvbuf_ = p.recvbuf_) (fun t ht => by rw [recvBufferTurn_sim, ht])
    (recvBuffer_keep p.recvbuf_) h2, bufMem, h1]

/-- **Both loops are left exactly when they do not come into a stuck state**, from every state of
the parser and for every input. -/
theorem recv_ends_iff (p : Parser) (_buffer : Bytes) (_recv_buffer : AutoBuffer) :
    (RecvEnds p _buffer ↔
      ¬ (_buffer ≠ [] ∧ Stuck rawOverload p.toCore (p.recvbuf_.write _buffer))) ∧
    (RecvBufferEnds p _recv_buffer ↔
      ¬ (_recv_buffer.length_ ≠ 0 ∧
        Stuck (bufferOverload p.recvbuf_.length_) p.toCore _recv_buffer)) := by
  constructor
  · unfold RecvEnds
    rw [recvTurn_stops, not_and, ← or_iff_not_imp_left]
  · unfold RecvBufferEnds
    rw [recvBufferTurn_stops, not_and, ← or_iff_not_imp_left]

/-- a first line that is rejected, then one more byte -/
theorem recv_spins :
    ∃ q, RecvAll {} [ascii "X\r\n"] q ∧ ¬ RecvEnds q (ascii "a") ∧
      ¬ RecvBufferEnds q (AutoBuffer.new.write (ascii "a")) := by
  obtain ⟨q, hq, hs⟩ := recv_of_within (n := 1) (p := {}) (d := ascii "X\r\n")
    (f := fun q => q.recvstatus_ == .kFirstLineError) (by decide +kernel)
  have hs' : q.recvstatus_ = .kFirstLineError := by simpa using hs
  have hstuck : ∀ o b, Stuck o q.toCore b := by
    intro o b
    unfold Stuck
    simp only [hs']
  have h1 := recvTurn_stops q (ascii "a")
  have h2 := recvBufferTurn_stops q (AutoBuffer.new.write (ascii "a"))
  refine ⟨q, .cons hq (.nil q), ?_, ?_⟩
  · rintro (h | h)
    · exact absurd h (by decide)
    · exact h1.mp h (hstuck _ _)
  · rintro (h | h)
    · exact absurd h (by decide)
    · exact h2.mp h (hstuck _ _)

end Http
