import LearnDiary.Http.Parser

/-!
# The two overloads as one machine

Status, fields and receiver together with the buffer that is parsed are all an iteration depends
on.  `turnOn o` is the iteration on these, `o` says in what the overloads differ.

* `recvTurn_sim`, `recvBufferTurn_sim`  each overload is the machine with its own `o`;
* `recv_mem`, `recvBuffer_mem`          so their results are results of the machine;
* `search_found`                        a hit is the first one in the received bytes;
* `search_eq`                           below `2^31` bytes a miss is one, too.
-/

namespace Http
open Loop

abbrev Mem := Core × AutoBuffer

/-- `headless`: a blank line right behind the first line ends the header; `guard`: the length the
last chunk is compared with, from the length of the buffer -/
structure Overload where
  headless : Bool
  guard : Nat → Nat

/-- `Recv(const void*, size_t)` -/
def rawOverload : Overload := ⟨true, id⟩

/-- `Recv(AutoBuffer&)` of a parser with `n` bytes in `recvbuf_` -/
def bufferOverload (n : Nat) : Overload := ⟨false, fun _ => n⟩

/-- behind the first line: status and number of bytes to drop -/
def afterLine (o : Overload) (b : AutoBuffer) (pos : Nat) : TRecvStatus × Nat :=
  if o.headless = true ∧ search b crlf2 = .found pos then (.kBody, pos + 2 + 2)
  else (.kHeaderFields, pos + 2)

def turnOn (o : Overload) (s : Mem) : Turn Mem :=
  match s.1.recvstatus_ with
  | .kStart | .kFirstLine =>
    match firstLine s.1 s.2 with
    | .wild => .wild
    | .ret c => .ret (c, s.2)
    | .hit pos c =>
      .again ({ c with recvstatus_ := (afterLine o s.2 pos).1 },
        s.2.move (-((afterLine o s.2 pos).2 : Int)))
  | .kHeaderFields =>
    match headerFields s.1 s.2 with
    | .wild => .wild
    | .ret c => .ret (c, s.2)
    | .hit pos c => .again (c, s.2.move (-((pos + 4 : Nat) : Int)))
  | .kBody => bodyTurn s.1 s.2 (o.guard s.2.length_)
  | .kEnd => .ret s
  | .kFirstLineError | .kHeaderFieldsError | .kBodyError => .again s

def Parser.mem (p : Parser) : Mem := (p.toCore, p.recvbuf_)

theorem turnOn_body (o : Overload) {c : Core} (b : AutoBuffer) (h : c.recvstatus_ = .kBody) :
    turnOn o (c, b) = bodyTurn c b (o.guard b.length_) := by
  unfold turnOn
  simp only [h]

/-! ## hits -/

theorem firstLine_hit {c c' : Core} {b : AutoBuffer} {pos : Nat} (h : firstLine c b = .hit pos c') :
    search b crlf = .found pos ∧ parseFirstLine c (b.parray_.take (pos + 2)) = (true, c') := by
  unfold firstLine at h
  split at h
  · cases h
  · split at h <;> cases h
  · rename_i q hq
    split at h
    · rename_i c1 h1
      cases h
      exact ⟨hq, h1⟩
    · cases h

theorem parseFirstLine_keeps {c c' : Core} {l : Bytes} {ok : Bool}
    (h : parseFirstLine c l = (ok, c')) :
    c'.bodyreceiver_ = c.bodyreceiver_ ∧ c'.headfields_ = c.headfields_ := by
  unfold parseFirstLine at h
  split at h
  · split at h
    all_goals
      cases h
      exact ⟨rfl, rfl⟩
  · split at h
    all_goals
      cases h
      exact ⟨rfl, rfl⟩

theorem headerFields_hit {c c' : Core} {b : AutoBuffer} {pos : Nat}
    (h : headerFields c b = .hit pos c') : search b crlf2 = .found pos ∧
      c' = { c with headfields_ := (HeaderFields.parserHeaders (b.parray_.take (pos + 4))
        c.headfields_).2, recvstatus_ := .kBody } := by
  unfold headerFields at h
  split at h
  · cases h
  · split at h <;> cases h
  · rename_i q hq
    split at h
    · rename_i f h1
      cases h
      exact ⟨hq, by rw [h1]⟩
    · cases h

theorem search_wild_iff (b : AutoBuffer) : search b crlf = .wild ↔ search b crlf2 = .wild :=
  strnstr_wild_iff crlf_ne crlf2_ne

/-- for every length a hit is the first occurrence in the received bytes -/
theorem search_found {b : AutoBuffer} {pat : Bytes} (hp : pat ≠ []) {pos : Nat}
    (h : search b pat = .found pos) : findC pat b.data = some pos := by
  have hL := b.length_le
  have hle := toInt32_le b.length_
  have hlt := toInt32_lt b.length_
  unfold search at h
  rcases lt_or_ge (toInt32 b.length_) 0 with hneg | hpos
  · exact absurd h (strnstr_neg hp hneg pos)
  · generalize hn : (toInt32 b.length_).toNat = n
    have hn' : toInt32 b.length_ = (n : Int) := by omega
    rw [hn', strnstr_eq _ _ hp n (by omega) (by omega)] at h
    cases e : findC pat (b.parray_.take n) with
    | none => rw [e] at h; cases h
    | some q =>
      rw [e] at h
      cases h
      have hpre : b.parray_.take n <+: b.data := by
        unfold AutoBuffer.data
        exact List.take_prefix_take_left (by omega)
      obtain ⟨t, ht⟩ := hpre
      rw [← ht]
      exact Find.findUpTo_append notNul t e

theorem search_found_le {b : AutoBuffer} {pat : Bytes} (hp : pat ≠ []) {pos : Nat}
    (h : search b pat = .found pos) : pos + pat.length ≤ b.length_ := by
  have h1 := Find.findUpTo_add_le notNul (search_found hp h)
  rwa [b.data_length] at h1

theorem search_found_lt {b : AutoBuffer} {pat : Bytes} (hp : pat ≠ []) {pos : Nat}
    (h : search b pat = .found pos) : pos + pat.length < 2 ^ 31 := by
  have h1 := (strnstr_bound hp h).1
  have h2 := toInt32_lt b.length_
  omega

theorem search_eq {b : AutoBuffer} {pat : Bytes} (hp : pat ≠ []) (h : b.length_ < 2 ^ 31) :
    search b pat = Search.ofOption (findC pat b.data) := by
  unfold search
  rw [toInt32_of_lt h, strnstr_eq _ _ hp _ b.length_le h]
  rfl

/-! ## the overloads -/

theorem recvTurn_sim (p : Parser) : (recvTurn p).map Parser.mem = turnOn rawOverload p.mem := by
  unfold recvTurn turnOn Parser.mem
  cases h : p.recvstatus_ with
  | kStart | kFirstLine =>
    simp only
    cases hf : firstLine p.toCore p.recvbuf_ with
    | wild => rfl
    | ret c => rfl
    | hit pos c =>
      have hw : search p.recvbuf_ crlf2 ≠ .wild := by
        rw [Ne, ← search_wild_iff, (firstLine_hit hf).1]
        exact Search.noConfusion
      cases hq : search p.recvbuf_ crlf2 with
      | wild => exact absurd hq hw
      | null => simp [afterLine, rawOverload, hq, Turn.map]
      | found q =>
        by_cases e : q = pos
        · simp [afterLine, rawOverload, hq, e, Turn.map]
        · simp [afterLine, rawOverload, hq, e, Turn.map]
  | kHeaderFields =>
    simp only
    cases headerFields p.toCore p.recvbuf_ <;> rfl
  | kBody =>
    simp only [rawOverload, id]
    cases bodyTurn p.toCore p.recvbuf_ p.recvbuf_.length_ <;> rfl
  | kEnd => rfl
  | kFirstLineError | kHeaderFieldsError | kBodyError => rfl

def bufMem (s : Parser × AutoBuffer) : Mem := (s.1.toCore, s.2)

theorem recvBufferTurn_sim (s : Parser × AutoBuffer) :
    (recvBufferTurn s).map bufMem = turnOn (bufferOverload s.1.recvbuf_.length_) (bufMem s) := by
  unfold recvBufferTurn turnOn bufMem
  cases h : s.1.recvstatus_ with
  | kStart | kFirstLine =>
    simp only
    cases firstLine s.1.toCore s.2 with
    | wild => rfl
    | ret c => rfl
    | hit pos c => simp [afterLine, bufferOverload, Turn.map]
  | kHeaderFields =>
    simp only
    cases headerFields s.1.toCore s.2 <;> rfl
  | kBody =>
    simp only [bufferOverload]
    cases bodyTurn s.1.toCore s.2 s.1.recvbuf_.length_ <;> rfl
  | kEnd => rfl
  | kFirstLineError | kHeaderFieldsError | kBodyError => rfl

theorem recvBufferTurn_recvbuf {s t : Parser × AutoBuffer} (h : recvBufferTurn s = .again t) :
    t.1.recvbuf_ = s.1.recvbuf_ := by
  unfold recvBufferTurn at h
  split at h
  · split at h
    all_goals cases h
    rfl
  · split at h
    all_goals cases h
    rfl
  · split at h
    all_goals cases h
    rfl
  · cases e : bodyTurn s.1.toCore s.2 s.1.recvbuf_.length_
    all_goals
      rw [e] at h
      cases h
    rfl
  · cases h
  · cases h; rfl
  · cases h; rfl
  · cases h; rfl

theorem capture_core (p : Parser) (d : Bytes) :
    (capture p d).toCore = p.toCore ∧ (capture p d).recvbuf_ = p.recvbuf_ := by
  unfold capture
  split
  · simp only
    split
    · split
      · split <;> exact ⟨rfl, rfl⟩
      · exact ⟨rfl, rfl⟩
    · exact ⟨rfl, rfl⟩
  · exact ⟨rfl, rfl⟩

theorem enter_mem (p : Parser) (d : Bytes) : (enter p d).mem = (p.toCore, p.recvbuf_.write d) := by
  unfold enter Parser.mem
  rw [(capture_core p d).1]

theorem recv_mem {p q : Parser} {d : Bytes} (hd : d ≠ []) (h : Recv p d q) :
    Returns (turnOn rawOverload) (p.toCore, p.recvbuf_.write d) q.mem := by
  unfold Recv at h
  rw [if_neg hd] at h
  rw [← enter_mem]
  exact h.map (P := fun _ => True) (fun s _ => recvTurn_sim s) (fun _ _ => trivial)

theorem mem_recv {p : Parser} {d : Bytes} {m : Mem} (hd : d ≠ [])
    (h : Returns (turnOn rawOverload) (p.toCore, p.recvbuf_.write d) m) :
    ∃ q, Recv p d q ∧ q.mem = m := by
  rw [← enter_mem] at h
  obtain ⟨q, hq, e⟩ := Returns.lift (P := fun _ => True) (fun s _ => recvTurn_sim s) h
    (fun _ _ => trivial)
  exact ⟨q, by unfold Recv; rwa [if_neg hd], e⟩

theorem recvBuffer_keep (rb : AutoBuffer) (s t : Parser × AutoBuffer) (hs : s.1.recvbuf_ = rb)
    (h : recvBufferTurn s = .again t) : t.1.recvbuf_ = rb := by
  rw [recvBufferTurn_recvbuf h, hs]

theorem recvBuffer_mem {p : Parser} {b : AutoBuffer} {s : Parser × AutoBuffer} (hb : b.length_ ≠ 0)
    (h : RecvBuffer p b s) :
    Returns (turnOn (bufferOverload p.recvbuf_.length_)) (p.toCore, b) (bufMem s) := by
  unfold RecvBuffer at h
  rw [if_neg hb] at h
  obtain ⟨h1, h2⟩ := capture_core p b.data
  have h3 := h.map (P := fun t => t.1.recvbuf_ = p.recvbuf_)
    (g := turnOn (bufferOverload p.recvbuf_.length_)) (f := bufMem)
    (fun t ht => by rw [recvBufferTurn_sim, ht])
    (fun t ht => ht.keep (recvBuffer_keep p.recvbuf_) h2)
  rwa [bufMem, h1] at h3

theorem mem_recvBuffer {p : Parser} {b : AutoBuffer} {m : Mem} (hb : b.length_ ≠ 0)
    (h : Returns (turnOn (bufferOverload p.recvbuf_.length_)) (p.toCore, b) m) :
    ∃ s, RecvBuffer p b s ∧ bufMem s = m := by
  obtain ⟨h1, h2⟩ := capture_core p b.data
  have h3 : Returns (turnOn (bufferOverload p.recvbuf_.length_))
      (bufMem (capture p b.data, b)) m := by rwa [bufMem, h1]
  obtain ⟨s, hs, e⟩ := Returns.lift (P := fun t => t.1.recvbuf_ = p.recvbuf_)
    (fun t ht => by rw [recvBufferTurn_sim, ht]) h3
    (fun t ht => ht.keep (recvBuffer_keep p.recvbuf_) h2)
  exact ⟨s, by unfold RecvBuffer; rwa [if_neg hb], e⟩

/-! ## memory and received bytes -/

theorem take_data (b : AutoBuffer) {n : Nat} (h : n ≤ b.length_) :
    b.parray_.take n = b.data.take n := by
  unfold AutoBuffer.data
  rw [List.take_take, Nat.min_eq_left h]

theorem drop_take_data (b : AutoBuffer) {off len : Nat} (h : off + len ≤ b.length_) :
    (b.parray_.drop off).take len = (b.data.drop off).take len := by
  unfold AutoBuffer.data
  rw [List.drop_take, List.take_take, Nat.min_eq_left (by omega)]

theorem getElem?_data (b : AutoBuffer) {i : Nat} (h : i < b.length_) :
    b.parray_[i]? = b.data[i]? := by
  unfold AutoBuffer.data
  rw [List.getElem?_take_of_lt h]

theorem crlf_prefix_iff (d : Bytes) (e : Nat) :
    crlf <+: d.drop e ↔ d[e]? = some 13 ∧ d[e + 1]? = some 10 := by
  have h0 : d[e]? = (d.drop e)[0]? := by rw [List.getElem?_drop, Nat.add_zero]
  have h1 : d[e + 1]? = (d.drop e)[1]? := by rw [List.getElem?_drop]
  rw [h0, h1]
  rcases d.drop e with _ | ⟨x, _ | ⟨y, l⟩⟩
  · simp [crlf]
  · simp [crlf]
  · simp only [crlf, List.cons_prefix_cons, List.nil_prefix , and_true]
    exact and_congr ⟨fun h => by rw [← h]; rfl, fun h => (Option.some.inj h).symm⟩
      ⟨fun h => by rw [← h]; rfl, fun h => (Option.some.inj h).symm⟩

theorem chunkTail_eq (b : AutoBuffer) {e : Nat} (h : e + 2 ≤ b.length_) :
    chunkTail b.parray_ e = some (decide (crlf <+: b.data.drop e)) := by
  have hb : ∀ i : Nat, i < b.length_ → ∃ x, byteAt b.parray_ i = some x ∧ b.data[i]? = some x := by
    intro i hi
    have hlt : i < b.data.length := by rw [b.data_length]; exact hi
    refine ⟨b.data[i], ?_, List.getElem?_eq_getElem hlt⟩
    unfold byteAt
    rw [if_neg (by omega), Int.toNat_natCast, getElem?_data b hi]
    exact List.getElem?_eq_getElem hlt
  obtain ⟨x, hx, hx'⟩ := hb e (by omega)
  obtain ⟨y, hy, hy'⟩ := hb (e + 1) (by omega)
  unfold chunkTail
  rw [hx]
  simp only [crlf_prefix_iff, hx', hy']
  rw [show ((e : Int) + 1) = ((e + 1 : Nat) : Int) by omega, hy]
  by_cases h13 : x = 13
  · by_cases h10 : y = 10
    · simp [h13, h10]
    · simp [h13, h10]
  · simp [h13]

theorem no_crlf_before {d : Bytes} {pos e : Nat} (h : findC crlf d = some pos) (he : e < pos + 2)
    (hne : e ≠ pos) : ¬ crlf <+: d.drop e := by
  intro hp
  have hd := Find.findUpTo_isPrefix notNul h
  rcases Nat.lt_or_gt_of_ne hne with hlt | hgt
  · -- it would lie in the part the search has seen
    obtain ⟨t, ht⟩ := Find.upTo_isPrefix notNul d
    have hs := Find.find_spec h
    have hle := Find.find_add_le h
    rw [← ht] at hp
    exact hs.2 e hlt (Find.prefix_drop_of_append
      (by have : crlf.length = 2 := rfl; omega) hp)
  · -- behind the CR of the line end stands its LF
    have e1 : e = pos + 1 := by omega
    rw [e1] at hp
    have h1 := ((crlf_prefix_iff d pos).mp hd).2
    have h2 := ((crlf_prefix_iff d (pos + 1)).mp hp).1
    rw [h1] at h2
    exact absurd h2 (by decide)

/-! ## the body -/

theorem idle_again {c : Core} {b : AutoBuffer} {t : Mem} (h : idle c b = .again t) :
    t = (c, b) ∧ b.length_ ≠ 0 := by
  unfold idle at h
  split at h
  · cases h
  · rename_i h0
    cases h
    exact ⟨rfl, h0⟩

theorem chunkTail_nonneg {m : Bytes} {e : Int} {r : Bool} (h : chunkTail m e = some r) : 0 ≤ e := by
  unfold chunkTail byteAt at h
  by_contra hneg
  rw [if_pos (by omega)] at h
  cases h

theorem chunkAct_append {b : AutoBuffer} {g off len move : Nat}
    (h : chunkAct b g = .append off len move) :
    ∃ (pos : Nat) (chunkSize : Int), search b crlf = .found pos ∧
      chunkSizeOf (b.parray_.take pos) = chunkSize ∧ chunkSize ≠ 0 ∧
      chunkSize + pos + 4 ≤ b.length_ ∧ chunkSize + pos + 4 < 2 ^ 63 ∧ 2 ≤ chunkSize + pos + 4 ∧
      chunkTail b.parray_ (pos + 2 + chunkSize) = some true ∧
      off = pos + 2 ∧ len = toSizeT chunkSize ∧ (move : Int) = pos + 2 + chunkSize + 2 := by
  unfold chunkAct at h
  split at h
  · cases h
  · cases h
  · rename_i pos hpos
    simp only at h
    split at h
    · rename_i hne
      split at h
      · cases h
      · rename_i hov
        split at h
        · cases h
        · rename_i hlen
          split at h
          · cases h
          · cases h
          · rename_i ht
            cases h
            have := chunkTail_nonneg ht
            exact ⟨pos, _, hpos, rfl, hne, by omega, by omega, by omega, ht, rfl, rfl, by omega⟩
    · split at h
      · cases h
      · split at h <;> cases h

/-- a chunk with a negative size passes for one only when the size is `-2`: the line end found is
the first one -/
theorem chunk_nonneg {b : AutoBuffer} {pos : Nat} {chunkSize : Int}
    (hpos : search b crlf = .found pos)
    (ht : chunkTail b.parray_ (pos + 2 + chunkSize) = some true) (hn : chunkSize ≠ -2)
    (hle : chunkSize + pos + 4 ≤ b.length_) : 0 ≤ chunkSize := by
  by_contra hneg
  have h0 := chunkTail_nonneg ht
  obtain ⟨k, hk⟩ : ∃ k : Nat, (pos : Int) + 2 + chunkSize = k :=
    ⟨((pos : Int) + 2 + chunkSize).toNat, by omega⟩
  rw [hk, chunkTail_eq b (by omega)] at ht
  exact no_crlf_before (search_found crlf_ne hpos) (e := k) (by omega) (by omega)
    (by simpa using ht)

theorem toSizeT_nonneg {n : Int} (h0 : 0 ≤ n) (h : n < 2 ^ 64) : toSizeT n = n.toNat := by
  have := toSizeT_of_lt (n := n.toNat) (by omega)
  rwa [show ((n.toNat : Nat) : Int) = n by omega] at this

theorem toInt32_sizeT (n : Nat) (a : Int) :
    toInt32 (((n + toSizeT a) % 2 ^ 64 : Nat) : Int) = toInt32 (n + a) := by
  apply toInt32_congr
  unfold toSizeT
  omega

theorem appendLen_some {contentLength appendlen : Int} {l d : Nat}
    (h : appendLen contentLength l d = some appendlen) :
    appendlen = (if toInt32 ((l + d : Nat) : Int) ≤ contentLength then toInt32 l
      else contentLength - toInt32 d) ∧ -2 ^ 31 < appendlen ∧ appendlen < 2 ^ 31 := by
  unfold appendLen at h
  simp only at h
  generalize hX : (if toInt32 ((l + d : Nat) : Int) ≤ contentLength then toInt32 l
    else contentLength - toInt32 d) = X at h ⊢
  split at h
  · rename_i hr
    cases h
    exact ⟨rfl, hr⟩
  · cases h

theorem contentLength_range (f : HeaderFields) :
    -2 ^ 31 ≤ f.contentLength ∧ f.contentLength < 2 ^ 31 := by
  unfold HeaderFields.contentLength
  split
  · exact ⟨le_toInt32 _, toInt32_lt _⟩
  · exact ⟨by norm_num, by norm_num⟩

/-! ## where an iteration goes -/

theorem idle_goes {c : Core} {b : AutoBuffer} {t : Mem} (h : (idle c b).Goes t) : t = (c, b) := by
  unfold idle at h
  split at h
  · exact h.of_ret
  · exact h.of_again

theorem turnOn_early {o : Overload} {s t : Mem}
    (he : s.1.recvstatus_.toNat < TRecvStatus.kBody.toNat) (h : (turnOn o s).Goes t) :
    t.1.bodyreceiver_ = s.1.bodyreceiver_ ∧ ∃ k : Nat, t.2 = s.2.move (-(k : Int)) := by
  have hzero : s.2 = s.2.move (-((0 : Nat) : Int)) := (AutoBuffer.move_zero s.2).symm
  have hscan : ∀ c b c', firstLine c b = .ret c' ∨ headerFields c b = .ret c' →
      c'.bodyreceiver_ = c.bodyreceiver_ := by
    intro c b c' h
    rcases h with h | h
    · unfold firstLine at h
      split at h
      · cases h
      · split at h
        all_goals
          cases h
          rfl
      · split at h
        · cases h
        · rename_i hp
          cases h
          exact (parseFirstLine_keeps hp).1
    · unfold headerFields at h
      split at h
      · cases h
      · split at h
        all_goals
          cases h
          rfl
      · split at h
        all_goals
          cases h
          try rfl
  unfold turnOn at h
  split at h
  · split at h
    · exact absurd h (by simp [Turn.Goes])
    · rename_i e
      rw [h.of_ret]
      exact ⟨hscan _ _ _ (Or.inl e), 0, hzero⟩
    · rename_i e
      rw [h.of_again]
      exact ⟨(parseFirstLine_keeps (firstLine_hit e).2).1, _, rfl⟩
  · split at h
    · exact absurd h (by simp [Turn.Goes])
    · rename_i e
      rw [h.of_ret]
      exact ⟨hscan _ _ _ (Or.inl e), 0, hzero⟩
    · rename_i e
      rw [h.of_again]
      exact ⟨(parseFirstLine_keeps (firstLine_hit e).2).1, _, rfl⟩
  · split at h
    · exact absurd h (by simp [Turn.Goes])
    · rename_i e
      rw [h.of_ret]
      exact ⟨hscan _ _ _ (Or.inr e), 0, hzero⟩
    · rename_i pos c' e
      rw [h.of_again]
      exact ⟨by rw [(headerFields_hit e).2], pos + 4, rfl⟩
  · rename_i e
    rw [e] at he
    exact absurd he (by decide)
  · rename_i e
    rw [e] at he
    exact absurd he (by decide)
  · rw [h.of_again]
    exact ⟨rfl, 0, hzero⟩
  · rw [h.of_again]
    exact ⟨rfl, 0, hzero⟩
  · rw [h.of_again]
    exact ⟨rfl, 0, hzero⟩

/-- what an iteration in the body does -/
inductive BodyStep (c : Core) (b : AutoBuffer) (g : Nat) (r : BodyReceiver) : Mem → Prop where
  | stay (st : TRecvStatus) : c.headfields_.isTransferEncodingChunked = true →
      (chunkAct b g = .wait ∨ chunkAct b g = .bad) → (st = c.recvstatus_ ∨ st = .kBodyError) →
      BodyStep c b g r ({ c with recvstatus_ := st }, b)
  | append {off len move : Nat} : c.headfields_.isTransferEncodingChunked = true →
      chunkAct b g = .append off len move →
      BodyStep c b g r ({ c with bodyreceiver_ := some (r.appendData (b.parray_.drop off) len) },
        b.move (-(move : Int)))
  | last {move : Nat} : c.headfields_.isTransferEncodingChunked = true →
      chunkAct b g = .last move →
      BodyStep c b g r ({ c with recvstatus_ := .kEnd, bodyreceiver_ := some r },
        b.move (-(move : Int)))
  | fixed {a : Int} (st : TRecvStatus) : c.headfields_.isTransferEncodingChunked = false →
      appendLen c.headfields_.contentLength b.length_ r.total_length_ = some a →
      (st = c.recvstatus_ ∨ st = .kEnd) →
      BodyStep c b g r
        ({ c with recvstatus_ := st, bodyreceiver_ := some (r.appendData b.parray_ (toSizeT a)) },
          b.move (-a))

theorem bodyTurn_goes {c : Core} {b : AutoBuffer} {g : Nat} {r : BodyReceiver} {t : Mem}
    (hr : c.bodyreceiver_ = some r) (h : (bodyTurn c b g).Goes t) : BodyStep c b g r t := by
  unfold bodyTurn at h
  split at h
  · rename_i e
    rw [hr] at e
    cases e
  · rename_i r' hr'
    rw [hr] at hr'
    cases hr'
    split at h
    · rename_i hc
      split at h
      · exact absurd h (by simp [Turn.Goes])
      · rename_i ha
        rw [h.of_ret]
        exact .stay c.recvstatus_ hc (Or.inl ha) (Or.inl rfl)
      · rename_i ha
        rw [h.of_ret]
        exact .stay .kBodyError hc (Or.inr ha) (Or.inr rfl)
      · rename_i ha
        rw [idle_goes h]
        exact .append hc ha
      · rename_i ha
        rw [idle_goes h]
        exact .last hc ha
    · rename_i hc
      replace hc : c.headfields_.isTransferEncodingChunked = false := by simpa using hc
      simp only at h
      split at h
      · exact absurd h (by simp [Turn.Goes])
      · rename_i a ha
        split at h
        · rw [h.of_ret]
          exact .fixed .kEnd hc ha (Or.inr rfl)
        · rw [idle_goes h]
          exact .fixed c.recvstatus_ hc ha (Or.inl rfl)

theorem bodyTurn_chunked {c : Core} {b : AutoBuffer} {g : Nat} {r : BodyReceiver}
    (hr : c.bodyreceiver_ = some r) (hc : c.headfields_.isTransferEncodingChunked = true) :
    bodyTurn c b g = match chunkAct b g with
      | .wild => .wild
      | .wait => .ret (c, b)
      | .bad => .ret ({ c with recvstatus_ := .kBodyError }, b)
      | .append off len move =>
        idle { c with bodyreceiver_ := some (r.appendData (b.parray_.drop off) len) }
          (b.move (-(move : Int)))
      | .last move =>
        idle { c with recvstatus_ := .kEnd, bodyreceiver_ := some r.endData }
          (b.move (-(move : Int))) := by
  unfold bodyTurn
  rw [hr]
  exact if_pos hc

theorem bodyTurn_unchunked {c : Core} {b : AutoBuffer} {g : Nat} {r : BodyReceiver}
    (hr : c.bodyreceiver_ = some r) (hc : c.headfields_.isTransferEncodingChunked = false) :
    bodyTurn c b g = match appendLen c.headfields_.contentLength b.length_ r.total_length_ with
      | none => .wild
      | some a =>
        if toInt32 (r.appendData b.parray_ (toSizeT a)).total_length_
            = c.headfields_.contentLength then
          .ret ({ c with
            recvstatus_ := .kEnd
            bodyreceiver_ := some (r.appendData b.parray_ (toSizeT a)) }, b.move (-a))
        else idle { c with bodyreceiver_ := some (r.appendData b.parray_ (toSizeT a)) }
          (b.move (-a)) := by
  unfold bodyTurn
  rw [hr]
  simp only [hc, Bool.false_eq_true, if_false]
  rfl

/-- the cursor of the buffer stays at its end, whatever an iteration does -/
theorem turnOn_tail {o : Overload} {s t : Mem} (hs : s.2.Tail) (h : (turnOn o s).Goes t) :
    t.2.Tail := by
  obtain ⟨c, b⟩ := s
  cases e : c.recvstatus_ with
  | kStart | kFirstLine | kFirstLineError | kHeaderFields | kHeaderFieldsError =>
    obtain ⟨k, hk⟩ := (turnOn_early (s := (c, b)) (by rw [e]; decide) h).2
    rw [hk]
    exact hs.move _
  | kBody =>
    rw [turnOn_body o b e] at h
    cases hr : c.bodyreceiver_ with
    | none =>
      unfold bodyTurn at h
      simp only [hr] at h
      rw [idle_goes h]
      exact hs
    | some r =>
      cases bodyTurn_goes hr h with
      | stay => exact hs
      | append | last | fixed => exact hs.move _
  | kBodyError =>
    unfold turnOn at h
    simp only [e] at h
    rw [h.of_again]
    exact hs
  | kEnd =>
    unfold turnOn at h
    simp only [e] at h
    rw [h.of_ret]
    exact hs

/-- **A call leaves the cursor of `recvbuf_` at its end.** -/
theorem recv_tail {p q : Parser} {d : Bytes} (hp : p.recvbuf_.Tail) (h : Recv p d q) :
    q.recvbuf_.Tail := by
  by_cases hd : d = []
  · unfold Recv at h
    rw [if_pos hd] at h
    rwa [h]
  · obtain ⟨m, hm, e⟩ := (recv_mem hd h).last
    have ht : m.2.Tail := hm.keep (P := fun m => m.2.Tail)
      (fun s t hs e => turnOn_tail hs (Or.inl e)) (hp.write d)
    exact turnOn_tail ht (Or.inr e)

end Http
