import LearnDiary.Http.View

/-!
# What the body receiver is handed

`appendCall` is the `AppendData` call an iteration makes, `Feed` a run of a fresh parser over
pieces of a stream, with the sum of the chunk sizes announced so far and all bytes handed in.  As
long as the announced lengths stay in range (`Declared`) every call is inside the buffer, the
buffer holds received bytes that are not consumed yet, and no more is delivered than announced.

* `recvTurn_appendCall`   `appendCall` is the call `recvTurn` makes;
* `appendCall_le`         one call;
* `body_wild`             only a scan for a line end leaves the buffer;
* `Accounted.next`        one iteration;
* `delivery_in_bounds`    every run;
* `appendData_negative`   a negative Content-Length leaves the buffer.
-/

namespace Http
open Loop

/-- offset in `recvbuf_` and length of the `AppendData` call the next iteration makes -/
def appendCall (p : Parser) : Option (Nat × Nat) :=
  if p.recvstatus_ = .kBody then
    match p.bodyreceiver_ with
    | none => none
    | some r =>
      if p.headfields_.isTransferEncodingChunked then
        match chunkAct p.recvbuf_ p.recvbuf_.length_ with
        | .append off len _ => some (off, len)
        | _ => none
      else
        (appendLen p.headfields_.contentLength p.recvbuf_.length_ r.total_length_).map
          (fun appendlen => (0, toSizeT appendlen))
  else none

def announced (p : Parser) : Nat :=
  if p.recvstatus_ = .kBody ∧ p.headfields_.isTransferEncodingChunked then
    match chunkAct p.recvbuf_ p.recvbuf_.length_, search p.recvbuf_ crlf with
    | .append _ _ _, .found pos => (chunkSizeOf (p.recvbuf_.parray_.take pos)).toNat
    | _, _ => 0
  else 0

/-- runs of a fresh parser whose iterations all meet `C`; the flag says whether the loop of a call
is at the head of an iteration.  `n` sums the announced chunk sizes, `fed` are all bytes handed
in. -/
inductive Feed (C : Parser → Prop) : Bool → Parser → Nat → Bytes → Prop where
  | fresh : Feed C false {} 0 []
  | call {p : Parser} {n : Nat} {fed : Bytes} (_buffer : Bytes) : Feed C false p n fed →
      _buffer ≠ [] → Feed C true (enter p _buffer) n (fed ++ _buffer)
  | again {p q : Parser} {n : Nat} {fed : Bytes} : Feed C true p n fed → C p →
      recvTurn p = .again q → Feed C true q (n + announced p) fed
  | ret {p q : Parser} {n : Nat} {fed : Bytes} : Feed C true p n fed → C p →
      recvTurn p = .ret q → Feed C false q (n + announced p) fed

/-- the announced lengths are in range when the iteration begins -/
def InRange (p : Parser) : Prop := Declared p.toCore p.recvbuf_

instance (p : Parser) : Decidable (InRange p) := inferInstanceAs (Decidable (Declared _ _))

/-- the scan for the end of a size line, or for the one behind the last chunk, leaves the block:
nothing is handed over then -/
def ScanWild (b : AutoBuffer) : Prop :=
  search b crlf = .wild ∨
    ∃ pos, search b crlf = .found pos ∧ chunkSizeOf (b.parray_.take pos) = 0 ∧
      strnstr (b.parray_.drop (pos + 2)) crlf (toInt32 b.length_) = .wild

/-- the length the message declares, given the chunk sizes announced so far -/
def declaredLength (c : Core) (n : Nat) : Nat :=
  if c.headfields_.isTransferEncodingChunked then n else c.headfields_.contentLength.toNat

/-! ## the call -/

theorem recvTurn_goes {p q : Parser} (h : (recvTurn p).Goes q) :
    (turnOn rawOverload p.mem).Goes q.mem := by
  rw [← recvTurn_sim]
  exact h.map Parser.mem

theorem body_goes {p q : Parser} (hb : p.recvstatus_ = .kBody) (h : (recvTurn p).Goes q) :
    (bodyTurn p.toCore p.recvbuf_ p.recvbuf_.length_).Goes q.mem := by
  have h' := recvTurn_goes h
  unfold Parser.mem at h'
  rwa [turnOn_body rawOverload _ hb] at h'

/-- `appendCall` is the call the iteration makes -/
theorem recvTurn_appendCall {p q : Parser} {r : BodyReceiver} (hb : p.recvstatus_ = .kBody)
    (hr : p.bodyreceiver_ = some r) (h : (recvTurn p).Goes q) :
    q.bodyreceiver_ = match appendCall p with
      | some (off, len) => some (r.appendData (p.recvbuf_.parray_.drop off) len)
      | none => some r := by
  have hs := bodyTurn_goes hr (body_goes hb h)
  have hq : q.bodyreceiver_ = q.mem.1.bodyreceiver_ := rfl
  unfold appendCall
  rw [if_pos hb, hr, hq]
  generalize q.mem = m at hs
  cases hs with
  | stay st hc ha =>
    rcases ha with ha | ha
    all_goals
      simp only [hc, if_true, ha]
      exact hr
  | append hc ha =>
    simp only [hc, if_true, ha]
  | last hc ha =>
    simp only [hc, if_true, ha]
  | fixed st hc ha =>
    simp only [hc, Bool.false_eq_true, if_false, ha, Option.map_some, List.drop_zero]

/-! ## what is delivered -/

/-- nothing before the body; then at most the announced sizes or the announced length -/
def Accounted (c : Core) (n : Nat) : Prop :=
  ∃ r, c.bodyreceiver_ = some r ∧
    (c.recvstatus_.toNat < TRecvStatus.kBody.toNat →
      r.total_length_ = 0 ∧ r.body.length = 0 ∧ n = 0) ∧
    r.total_length_ ≤ declaredLength c n ∧ r.body.length ≤ declaredLength c n ∧
    (c.headfields_.isTransferEncodingChunked = false → r.body.length ≤ r.total_length_)

theorem Accounted.within {c : Core} {n : Nat} (h : Accounted c n) : Within c := by
  obtain ⟨r, hr, h1, h2, -, -⟩ := h
  refine ⟨r, hr, fun he => (h1 he).1, fun _ hc h0 => ?_⟩
  unfold declaredLength at h2
  rw [hc] at h2
  simp only [Bool.false_eq_true, if_false] at h2
  omega

theorem idle_map_ne_wild {α : Type} (f : Core × AutoBuffer → α) (c : Core) (b : AutoBuffer) :
    (idle c b).map f ≠ .wild := by
  unfold idle
  intro h
  split at h <;> cases h

/-- **One call is inside the buffer.** -/
theorem appendCall_le {p : Parser} {n off len : Nat} (ha : Accounted p.toCore n) (hd : InRange p)
    (h : appendCall p = some (off, len)) : off + len ≤ p.recvbuf_.length_ := by
  obtain ⟨r, hr, -, hw⟩ := ha.within
  unfold appendCall at h
  split at h
  · rename_i hb
    rw [hr] at h
    simp only at h
    split at h
    · rename_i hc
      split at h
      · rename_i off' len' move hact
        cases h
        obtain ⟨pos, size, hpos, hsz, _, hle, hov, _, htail, rfl, rfl, _⟩ := chunkAct_append hact
        have hne := ((hd hb r hr).1 hc pos hpos).2.1
        rw [hsz] at hne
        have h0 := chunk_nonneg hpos htail hne hle
        rw [toSizeT_nonneg h0 (by omega)]
        omega
      · cases h
    · rename_i hc
      replace hc : p.headfields_.isTransferEncodingChunked = false := by simpa using hc
      obtain ⟨h0, h2⟩ := (hd hb r hr).2 hc
      have h3 := hw hb hc h0
      have h4 := (fixedLen_le (l := p.recvbuf_.length_) h3).1
      rw [appendLen_eq h0 (contentLength_range _).2 h2 h3, Option.map_some] at h
      cases h
      rw [toSizeT_of_lt (by omega)]
      omega
  · cases h

theorem chunkAct_wild {b : AutoBuffer} {g : Nat}
    (hd : ∀ pos : Nat, search b crlf = .found pos →
      -(pos + 2) ≤ chunkSizeOf (b.parray_.take pos) ∧ chunkSizeOf (b.parray_.take pos) ≠ -2 ∧
      chunkSizeOf (b.parray_.take pos) + pos + 4 < 2 ^ 63)
    (h : chunkAct b g = .wild) : ScanWild b := by
  unfold chunkAct at h
  split at h
  · rename_i e
    exact Or.inl e
  · cases h
  · rename_i pos e
    obtain ⟨h1, -, h3⟩ := hd pos e
    have hpos := search_found_le crlf_ne e
    have h2 : crlf.length = 2 := rfl
    simp only at h
    split at h
    · split at h
      · omega
      · split at h
        · cases h
        · -- the two bytes behind the chunk are received ones
          obtain ⟨k, hk⟩ : ∃ k : Nat, (pos : Int) + 2 + chunkSizeOf (b.parray_.take pos) = k :=
            ⟨((pos : Int) + 2 + chunkSizeOf (b.parray_.take pos)).toNat, by omega⟩
          rw [hk, chunkTail_eq b (by omega)] at h
          split at h
          · rename_i hnone
            cases hnone
          · cases h
          · cases h
    · rename_i h0
      split at h
      · cases h
      · split at h
        · rename_i hw
          exact Or.inr ⟨pos, e, by omega, hw⟩
        · cases h
        · cases h

/-- **In range only a scan for a line end leaves the buffer.** -/
theorem body_wild {p : Parser} {n : Nat} (ha : Accounted p.toCore n) (hd : InRange p)
    (hb : p.recvstatus_ = .kBody) (h : recvTurn p = .wild) : ScanWild p.recvbuf_ := by
  obtain ⟨r, hr, -, hw⟩ := ha.within
  unfold recvTurn at h
  simp only [hb] at h
  cases hc : p.headfields_.isTransferEncodingChunked with
  | true =>
    rw [bodyTurn_chunked hr hc] at h
    refine chunkAct_wild ((hd hb r hr).1 hc) (g := p.recvbuf_.length_) ?_
    generalize chunkAct p.recvbuf_ p.recvbuf_.length_ = a at h
    cases a with
    | wild => rfl
    | wait => cases h
    | bad => cases h
    | append => exact absurd h (idle_map_ne_wild _ _ _)
    | last => exact absurd h (idle_map_ne_wild _ _ _)
  | false =>
    obtain ⟨h0, h2⟩ := (hd hb r hr).2 hc
    rw [bodyTurn_unchunked hr hc,
      appendLen_eq h0 (contentLength_range _).2 h2 (hw hb hc h0)] at h
    simp only at h
    split at h
    · cases h
    · exact absurd h (idle_map_ne_wild _ _ _)

theorem appendData_body_le (r : BodyReceiver) (_body : Bytes) (_length : Nat) :
    (r.appendData _body _length).body.length ≤ _length + r.body.length := by
  unfold BodyReceiver.appendData
  simp only [List.length_append, List.length_take]
  omega

theorem not_early_bodyError : ¬ TRecvStatus.kBodyError.toNat < TRecvStatus.kBody.toNat := by decide
theorem not_early_end : ¬ TRecvStatus.kEnd.toNat < TRecvStatus.kBody.toNat := by decide

/-- **One iteration keeps the account.** -/
theorem Accounted.next {p q : Parser} {n : Nat} (ha : Accounted p.toCore n) (hd : InRange p)
    (h : (recvTurn p).Goes q) : Accounted q.toCore (n + announced p) := by
  have hw := ha.within
  obtain ⟨r, hr, hearly, htot, hlen, hfix⟩ := ha
  by_cases he : p.recvstatus_.toNat < TRecvStatus.kBody.toNat
  · -- nothing is announced and nothing delivered
    obtain ⟨h1, h2, rfl⟩ := hearly he
    have hk := (turnOn_early (s := p.mem) he (recvTurn_goes h)).1
    have h0 : announced p = 0 := by
      unfold announced
      rw [if_neg (fun hb => by rw [hb.1] at he; exact absurd he (by decide))]
    rw [h0]
    exact ⟨r, hk.trans hr, fun _ => ⟨h1, h2, rfl⟩, by omega, by omega, fun _ => by omega⟩
  · by_cases hb : p.recvstatus_ = .kBody
    · have hs := bodyTurn_goes hr (body_goes hb h)
      obtain ⟨r', hr', -, hwithin⟩ := hw
      rw [hr] at hr'
      cases hr'
      have hq : q.toCore = q.mem.1 := rfl
      rw [hq]
      generalize q.mem = m at hs
      cases hs with
      | stay st hc ha hst =>
        have h0 : announced p = 0 := by
          unfold announced
          rw [if_pos ⟨hb, hc⟩]
          rcases ha with ha | ha
          · rw [ha]
          · rw [ha]
        rw [h0]
        refine ⟨r, hr, fun hlt => ?_, htot, hlen, hfix⟩
        rcases hst with rfl | rfl
        · exact absurd hlt he
        · exact absurd hlt not_early_bodyError
      | append hc hact =>
        obtain ⟨pos, size, hpos, hsz, _, hle, hov, _, htail, rfl, rfl, _⟩ := chunkAct_append hact
        have hne := ((hd hb r hr).1 hc pos hpos).2.1
        rw [hsz] at hne
        have hnn := chunk_nonneg hpos htail hne hle
        have h0 : announced p = size.toNat := by
          unfold announced
          rw [if_pos ⟨hb, hc⟩, hact, hpos, ← hsz]
        have hto := toSizeT_nonneg hnn (by omega)
        rw [h0, hto]
        unfold declaredLength at htot hlen
        rw [if_pos hc] at htot hlen
        have h1 := appendData_le r (p.recvbuf_.parray_.drop (pos + 2)) size.toNat
        have h2 := appendData_body_le r (p.recvbuf_.parray_.drop (pos + 2)) size.toNat
        refine ⟨_, rfl, fun hlt => absurd hlt he, ?_, ?_, fun hc' => ?_⟩
        · unfold declaredLength
          rw [if_pos hc]
          omega
        · unfold declaredLength
          rw [if_pos hc]
          omega
        · rw [hc] at hc'
          cases hc'
      | last hc hact =>
        have h0 : announced p = 0 := by
          unfold announced
          rw [if_pos ⟨hb, hc⟩, hact]
        rw [h0]
        exact ⟨r, rfl, fun hlt => absurd hlt not_early_end, htot, hlen, hfix⟩
      | fixed st hc ha hst =>
        have h0 : announced p = 0 := by
          unfold announced
          rw [if_neg (fun hb' => by rw [hc] at hb'; exact Bool.noConfusion hb'.2)]
        obtain ⟨hcl, h2⟩ := (hd hb r hr).2 hc
        have h3 := hwithin hb hc hcl
        have h4 := fixedLen_le (l := p.recvbuf_.length_) h3
        rw [appendLen_eq hcl (contentLength_range _).2 h2 h3] at ha
        cases ha
        generalize fixedLen p.headfields_.contentLength p.recvbuf_.length_ r.total_length_ = k at h4
        have hto : toSizeT (k : Int) = k := toSizeT_of_lt (by omega)
        have h5 : (r.appendData p.recvbuf_.parray_ k).total_length_ = r.total_length_ + k :=
          Nat.mod_eq_of_lt (by omega)
        have h6 := appendData_body_le r p.recvbuf_.parray_ k
        have h7 := hfix hc
        rw [h0, hto]
        refine ⟨_, rfl, fun hlt => ?_, ?_, ?_, fun _ => by omega⟩
        · rcases hst with rfl | rfl
          · exact absurd hlt he
          · exact absurd hlt not_early_end
        · unfold declaredLength
          simp only [hc, Bool.false_eq_true, if_false]
          omega
        · unfold declaredLength
          simp only [hc, Bool.false_eq_true, if_false]
          omega
    · have h0 : announced p = 0 := by
        unfold announced
        rw [if_neg (fun hb' => hb hb'.1)]
      have hqp : q = p := by
        unfold recvTurn at h
        cases e : p.recvstatus_ with
        | kStart | kFirstLine | kFirstLineError | kHeaderFields | kHeaderFieldsError =>
          rw [e] at he
          exact absurd (by decide) he
        | kBody => exact absurd e hb
        | kBodyError =>
          simp only [e] at h
          exact h.of_again
        | kEnd =>
          simp only [e] at h
          exact h.of_ret
      rw [hqp, h0]
      exact ⟨r, hr, fun hlt => absurd hlt he, htot, hlen, hfix⟩

/-! ## runs -/

theorem suffix_drop {d fed : Bytes} (h : d <:+ fed) (k : Nat) : d.drop k <:+ fed :=
  (List.drop_suffix k d).trans h

/-- the receive buffer of a run: received bytes that are not consumed yet, behind the cursor
nothing -/
theorem feed_inv {b : Bool} {p : Parser} {n : Nat} {fed : Bytes} (h : Feed InRange b p n fed) :
    Accounted p.toCore n ∧ p.recvbuf_.Tail ∧ p.recvbuf_.data <:+ fed := by
  have step : ∀ {p q : Parser} {n : Nat} {fed : Bytes}, Accounted p.toCore n → p.recvbuf_.Tail →
      p.recvbuf_.data <:+ fed → InRange p → (recvTurn p).Goes q →
      Accounted q.toCore (n + announced p) ∧ q.recvbuf_.Tail ∧ q.recvbuf_.data <:+ fed := by
    intro p q n fed h1 h2 h3 hd hg
    obtain ⟨k, hk⟩ := turnOn_drop (s := p.mem) hd h1.within (recvTurn_goes hg)
    have hk' : q.recvbuf_ = p.recvbuf_.move (-(k : Int)) := hk
    rw [hk']
    refine ⟨h1.next hd hg, h2.move _, ?_⟩
    rw [AutoBuffer.move_data]
    exact suffix_drop h3 k
  induction h with
  | fresh =>
    exact ⟨⟨{}, rfl, fun _ => ⟨rfl, rfl, rfl⟩, Nat.zero_le _, Nat.zero_le _, fun _ => Nat.le_refl _⟩,
      AutoBuffer.Tail.new, List.nil_suffix⟩
  | @call p n fed d _ hd ih =>
    obtain ⟨h1, h2, h3⟩ := ih
    have hm := enter_mem p d
    have hc : (enter p d).toCore = p.toCore := congrArg Prod.fst hm
    have hb : (enter p d).recvbuf_ = p.recvbuf_.write d := congrArg Prod.snd hm
    rw [hc, hb, AutoBuffer.write_data _ _ h2.pos]
    refine ⟨h1, h2.write d, ?_⟩
    obtain ⟨t, ht⟩ := h3
    exact ⟨t, by rw [← ht, List.append_assoc]⟩
  | again _ hC e ih => exact step ih.1 ih.2.1 ih.2.2 hC (Or.inl e)
  | ret _ hC e ih => exact step ih.1 ih.2.1 ih.2.2 hC (Or.inr e)

/-- **Delivery in bounds.**  In every run whose iterations begin with announced lengths in range:
the next `AppendData` call is inside the buffer, and an iteration without an outcome makes none;
the buffer holds received bytes that are not consumed yet, and no more is delivered than the
message declares. -/
theorem delivery_in_bounds {b : Bool} {p : Parser} {n : Nat} {fed : Bytes}
    (h : Feed InRange b p n fed) :
    (InRange p → ∀ off len, appendCall p = some (off, len) → off + len ≤ p.recvbuf_.length_) ∧
    (InRange p → p.recvstatus_ = .kBody → recvTurn p = .wild → ScanWild p.recvbuf_) ∧
    p.recvbuf_.data <:+ fed ∧
    ∀ r, p.bodyreceiver_ = some r → r.total_length_ ≤ declaredLength p.toCore n ∧
      r.body.length ≤ declaredLength p.toCore n := by
  obtain ⟨h1, -, h3⟩ := feed_inv h
  refine ⟨fun hd off len hcall => appendCall_le h1 hd hcall,
    fun hd hb hw => body_wild h1 hd hb hw, h3, fun r hr => ?_⟩
  obtain ⟨r', hr', -, h4, h5, -⟩ := h1
  rw [hr] at hr'
  cases hr'
  exact ⟨h4, h5⟩

/-! ## concrete runs -/

/-- `k` iterations from `p`, all with `C`, end in a state with `f` -/
def feedWithin (C : Parser → Prop) [DecidablePred C] (f : Parser → Bool) : Nat → Parser → Bool
  | 0, p => f p
  | k + 1, p =>
    decide (C p) &&
      match recvTurn p with
      | .again q => feedWithin C f k q
      | _ => false

theorem feed_of_within {C : Parser → Prop} [DecidablePred C] {f : Parser → Bool} {k : Nat}
    {p : Parser} {n : Nat} {fed : Bytes} (hp : Feed C true p n fed)
    (h : feedWithin C f k p = true) : ∃ q m, Feed C true q m fed ∧ f q = true := by
  induction k generalizing p n with
  | zero => exact ⟨p, n, hp, h⟩
  | succ k ih =>
    unfold feedWithin at h
    simp only [Bool.and_eq_true, decide_eq_true_eq] at h
    obtain ⟨hC, h⟩ := h
    split at h
    · rename_i q hq
      exact ih (.again hp hC hq) h
    · cases h

theorem delivery_in_bounds_hello : ∃ p, appendCall p = some (0, 5) ∧ 0 + 5 ≤ p.recvbuf_.length_ ∧
    p.recvbuf_.data <:+ ascii "HTTP/1.1 200 OK\r\nContent-Length: 5\r\n\r\nhello" := by
  have h0 : Feed InRange true (enter {} (ascii "HTTP/1.1 200 OK\r\nContent-Length: 5\r\n\r\nhello")) 0
      (ascii "HTTP/1.1 200 OK\r\nContent-Length: 5\r\n\r\nhello") := .call _ .fresh (by decide)
  obtain ⟨p, n, hp, hf⟩ := feed_of_within
    (f := fun p => decide (InRange p) && (appendCall p == some (0, 5))) (k := 2) h0
    (by decide +kernel)
  simp only [Bool.and_eq_true, decide_eq_true_eq, beq_iff_eq] at hf
  obtain ⟨h1, -, h2, -⟩ := delivery_in_bounds hp
  exact ⟨p, hf.2, h1 hf.1 0 5 hf.2, h2⟩

/-- **A negative Content-Length**: `AppendData` is called with `(size_t)-5` bytes of five. -/
theorem appendData_negative : ∃ p n,
    Feed (fun _ => True) true p n (ascii "HTTP/1.1 200 OK\r\nContent-Length: -5\r\n\r\nhello") ∧
    appendCall p = some (0, 18446744073709551611) ∧ p.recvbuf_.length_ = 5 := by
  have h0 : Feed (fun _ => True) true
      (enter {} (ascii "HTTP/1.1 200 OK\r\nContent-Length: -5\r\n\r\nhello")) 0
      (ascii "HTTP/1.1 200 OK\r\nContent-Length: -5\r\n\r\nhello") := .call _ .fresh (by decide)
  obtain ⟨p, n, hp, hf⟩ := feed_of_within
    (f := fun p => (appendCall p == some (0, 18446744073709551611)) && p.recvbuf_.length_ == 5)
    (k := 2) h0 (by decide +kernel)
  simp only [Bool.and_eq_true, beq_iff_eq] at hf
  exact ⟨p, n, hp, hf⟩

end Http
