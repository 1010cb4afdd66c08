import LearnDiary.Http.Machine

/-!
# The parser on received bytes

`viewTurn` is the iteration of the parser as a function of the received bytes alone: searches see
these bytes only and lengths are numbers without a width.  The machine behaves so in every
iteration that is `Sound`: fewer than `2^31` buffered bytes, announced lengths that stay in range,
a chunk trailer that is found in the received bytes or not at all.

* `turnOn_view`      a sound iteration is an iteration on the received bytes;
* `turnOn_keep`      and keeps the shape of the buffer and the bound on what is delivered;
* `viewTurn_ne_wild` an iteration on the received bytes always has a meaning.
-/

namespace Http
open Loop

abbrev View := Core × Bytes

def view (s : Mem) : View := (s.1, s.2.data)

def viewFirstLine (c : Core) (d : Bytes) : Scan :=
  match findC crlf d with
  | none =>
    if 8 * 1024 < d.length then .ret { c with recvstatus_ := .kFirstLineError }
    else .ret { c with recvstatus_ := .kFirstLine }
  | some pos =>
    match parseFirstLine c (d.take (pos + 2)) with
    | (true, c') => .hit pos c'
    | (false, c') => .ret { c' with recvstatus_ := .kFirstLineError }

def viewHeaderFields (c : Core) (d : Bytes) : Scan :=
  match findC crlf2 d with
  | none =>
    if 128 * 1024 < d.length then .ret { c with recvstatus_ := .kHeaderFieldsError } else .ret c
  | some pos =>
    match HeaderFields.parserHeaders (d.take (pos + 4)) c.headfields_ with
    | (true, f) => .hit pos { c with headfields_ := f, recvstatus_ := .kBody }
    | (false, f) => .ret { c with headfields_ := f, recvstatus_ := .kHeaderFieldsError }

def viewChunk (d : Bytes) (guardLen : Nat) : Chunk :=
  match findC crlf d with
  | none => .wait
  | some sizeLen =>
    let chunkSize := chunkSizeOf (d.take sizeLen)
    if chunkSize = 0 then
      if guardLen < sizeLen + 4 then .wait
      else
        match findC crlf (d.drop (sizeLen + 2)) with
        | none => .wait
        | some trailer => .last (sizeLen + 2 + trailer + 2)
    else if (d.length : Int) < chunkSize + sizeLen + 4 then .wait
    else if chunkSize < 0 then .bad
    else if crlf <+: d.drop (sizeLen + 2 + chunkSize.toNat) then
      .append (sizeLen + 2) chunkSize.toNat (sizeLen + 2 + chunkSize.toNat + 2)
    else .bad

def viewIdle (c : Core) (d : Bytes) : Turn View :=
  if d.length = 0 then .ret (c, d) else .again (c, d)

/-- bytes of a fixed-length body that are taken -/
def fixedLen (contentLength : Int) (length delivered : Nat) : Nat :=
  if ((length + delivered : Nat) : Int) ≤ contentLength then length
  else contentLength.toNat - delivered

def viewBody (c : Core) (d : Bytes) (guardLen : Nat) : Turn View :=
  match c.bodyreceiver_ with
  | none => viewIdle c d
  | some r =>
    if c.headfields_.isTransferEncodingChunked then
      match viewChunk d guardLen with
      | .wild => .wild
      | .wait => .ret (c, d)
      | .bad => .ret ({ c with recvstatus_ := .kBodyError }, d)
      | .append off len move =>
        viewIdle { c with bodyreceiver_ := some (r.appendData (d.drop off) len) } (d.drop move)
      | .last move =>
        viewIdle { c with recvstatus_ := .kEnd, bodyreceiver_ := some r.endData } (d.drop move)
    else
      let contentLength := c.headfields_.contentLength
      let appendlen := fixedLen contentLength d.length r.total_length_
      let r' := r.appendData d appendlen
      if (r'.total_length_ : Int) = contentLength then
        .ret ({ c with recvstatus_ := .kEnd, bodyreceiver_ := some r'.endData }, d.drop appendlen)
      else viewIdle { c with bodyreceiver_ := some r' } (d.drop appendlen)

/-- behind the first line: status and number of bytes to drop -/
def viewAfterLine (o : Overload) (d : Bytes) (pos : Nat) : TRecvStatus × Nat :=
  if o.headless = true ∧ findC crlf2 d = some pos then (.kBody, pos + 2 + 2)
  else (.kHeaderFields, pos + 2)

def viewTurn (o : Overload) (s : View) : Turn View :=
  match s.1.recvstatus_ with
  | .kStart | .kFirstLine =>
    match viewFirstLine s.1 s.2 with
    | .wild => .wild
    | .ret c => .ret (c, s.2)
    | .hit pos c =>
      .again ({ c with recvstatus_ := (viewAfterLine o s.2 pos).1 },
        s.2.drop (viewAfterLine o s.2 pos).2)
  | .kHeaderFields =>
    match viewHeaderFields s.1 s.2 with
    | .wild => .wild
    | .ret c => .ret (c, s.2)
    | .hit pos c => .again (c, s.2.drop (pos + 4))
  | .kBody => viewBody s.1 s.2 (o.guard s.2.length)
  | .kEnd => .ret s
  | .kFirstLineError | .kHeaderFieldsError | .kBodyError => .again s

/-! ## sound iterations -/

/-- the announced lengths stay in range: a fixed length is not negative and the bytes count in an
`int`; the end of a chunk does not lie in front of the buffer, its size is not `-2`, and its end is
computed in 64 bits -/
def Declared (c : Core) (b : AutoBuffer) : Prop :=
  c.recvstatus_ = .kBody → ∀ r, c.bodyreceiver_ = some r →
    (c.headfields_.isTransferEncodingChunked = true → ∀ pos : Nat, search b crlf = .found pos →
      -(pos + 2) ≤ chunkSizeOf (b.parray_.take pos) ∧ chunkSizeOf (b.parray_.take pos) ≠ -2 ∧
      chunkSizeOf (b.parray_.take pos) + pos + 4 < 2 ^ 63) ∧
    (c.headfields_.isTransferEncodingChunked = false →
      0 ≤ c.headfields_.contentLength ∧ b.length_ + r.total_length_ < 2 ^ 31)

/-- the trailer of the last chunk, behind a size line of `pos` bytes, is found in the received
bytes or not at all -/
def TrailerClean (b : AutoBuffer) (pos : Nat) : Prop :=
  strnstr (b.parray_.drop (pos + 2)) crlf (toInt32 b.length_)
    = Search.ofOption (findC crlf (b.data.drop (pos + 2)))

/-- the scan behind the last chunk looks at received bytes only -/
def Contained (o : Overload) (c : Core) (b : AutoBuffer) : Prop :=
  c.recvstatus_ = .kBody → c.headfields_.isTransferEncodingChunked = true →
    ∀ pos : Nat, search b crlf = .found pos →
      chunkSizeOf (b.parray_.take pos) = 0 → pos + 4 ≤ o.guard b.length_ → TrailerClean b pos

structure Sound (o : Overload) (s : Mem) : Prop where
  declared : Declared s.1 s.2
  contained : Contained o s.1 s.2

/-- nothing is delivered before the body, and of a fixed-length body no more than announced -/
def Within (c : Core) : Prop :=
  ∃ r, c.bodyreceiver_ = some r ∧ (c.recvstatus_.toNat < TRecvStatus.kBody.toNat → r.total_length_ = 0) ∧
    (c.recvstatus_ = .kBody → c.headfields_.isTransferEncodingChunked = false →
      0 ≤ c.headfields_.contentLength → (r.total_length_ : Int) ≤ c.headfields_.contentLength)

structure Inv (s : Mem) : Prop where
  small : s.2.length_ < 2 ^ 31
  within : Within s.1

/-! ## sound or not is computed -/

instance Search.decidableFound (s : Search) (P : Nat → Prop) [DecidablePred P] :
    Decidable (∀ pos, s = .found pos → P pos) :=
  match s with
  | .found p => decidable_of_iff (P p) ⟨fun h _ e => by cases e; exact h, fun h => h p rfl⟩
  | .null => .isTrue (fun _ e => by cases e)
  | .wild => .isTrue (fun _ e => by cases e)

instance decidableReceiver (r : Option BodyReceiver) (P : BodyReceiver → Prop) [DecidablePred P] :
    Decidable (∀ x, r = some x → P x) :=
  match r with
  | some x => decidable_of_iff (P x) ⟨fun h _ e => by cases e; exact h, fun h => h x rfl⟩
  | none => .isTrue (fun _ e => by cases e)

instance (c : Core) (b : AutoBuffer) : Decidable (Declared c b) :=
  inferInstanceAs (Decidable (c.recvstatus_ = .kBody → ∀ r, c.bodyreceiver_ = some r → _ ∧ _))

instance (b : AutoBuffer) (pos : Nat) : Decidable (TrailerClean b pos) :=
  inferInstanceAs (Decidable (_ = _))

instance (o : Overload) (c : Core) (b : AutoBuffer) : Decidable (Contained o c b) :=
  inferInstanceAs (Decidable (c.recvstatus_ = .kBody → _ → ∀ pos, search b crlf = .found pos → _))

/-! ## searches -/

theorem firstLine_view (c : Core) {b : AutoBuffer} (h : b.length_ < 2 ^ 31) :
    firstLine c b = viewFirstLine c b.data := by
  unfold firstLine viewFirstLine
  rw [search_eq crlf_ne h, b.data_length]
  cases e : findC crlf b.data with
  | none => rfl
  | some pos =>
    have hle : pos + 2 ≤ b.length_ := by
      rw [← b.data_length]
      exact Find.findUpTo_add_le notNul e
    have htake := take_data b hle
    rcases hp : parseFirstLine c (b.data.take (pos + 2)) with ⟨_ | _, c'⟩
    · simp only [Search.ofOption, htake, hp]
    · simp only [Search.ofOption, htake, hp]

theorem headerFields_view (c : Core) {b : AutoBuffer} (h : b.length_ < 2 ^ 31) :
    headerFields c b = viewHeaderFields c b.data := by
  unfold headerFields viewHeaderFields
  rw [search_eq crlf2_ne h, b.data_length]
  cases e : findC crlf2 b.data with
  | none => rfl
  | some pos =>
    have hle : pos + 4 ≤ b.length_ := by
      rw [← b.data_length]
      exact Find.findUpTo_add_le notNul e
    have htake := take_data b hle
    rcases hp : HeaderFields.parserHeaders (b.data.take (pos + 4)) c.headfields_ with ⟨_ | _, f⟩
    · simp only [Search.ofOption, htake, hp]
    · simp only [Search.ofOption, htake, hp]

theorem chunkAct_view {o : Overload} {c : Core} {b : AutoBuffer} {r : BodyReceiver}
    (hs : Sound o (c, b)) (hb : c.recvstatus_ = .kBody) (hr : c.bodyreceiver_ = some r)
    (hc : c.headfields_.isTransferEncodingChunked = true) (h : b.length_ < 2 ^ 31) :
    chunkAct b (o.guard b.length_) = viewChunk b.data (o.guard b.length_) := by
  unfold chunkAct viewChunk
  cases e : search b crlf with
  | wild =>
    rw [search_eq crlf_ne h] at e
    cases e' : findC crlf b.data <;> rw [e'] at e <;> cases e
  | null =>
    rw [search_eq crlf_ne h] at e
    cases e' : findC crlf b.data with
    | none => rfl
    | some pos => rw [e'] at e; cases e
  | found pos =>
    have hf := search_found crlf_ne e
    have hle := search_found_le crlf_ne e
    have h2 : crlf.length = 2 := rfl
    obtain ⟨h3, h4, h5⟩ := (hs.declared hb r hr).1 hc pos e
    have hclean : chunkSizeOf (b.parray_.take pos) = 0 → pos + 4 ≤ o.guard b.length_ →
        TrailerClean b pos := hs.contained hb hc pos e
    simp only [hf, b.data_length]
    rw [← take_data b (n := pos) (by omega)]
    generalize chunkSizeOf (b.parray_.take pos) = n at h3 h4 h5 hclean ⊢
    by_cases h0 : n = 0
    · rw [if_neg (by omega), if_pos h0]
      have hmod : (pos + 4) % 2 ^ 32 = pos + 4 := Nat.mod_eq_of_lt (by omega)
      rw [hmod]
      by_cases hg : o.guard b.length_ < pos + 4
      · rw [if_pos hg, if_pos hg]
      · rw [if_neg hg, if_neg hg, hclean h0 (by omega)]
        cases findC crlf (b.data.drop (pos + 2)) <;> rfl
    · rw [if_pos h0, if_neg h0, if_neg (by omega)]
      by_cases hl : (b.length_ : Int) < n + pos + 4
      · rw [if_pos hl, if_pos hl]
      · rw [if_neg hl, if_neg hl]
        obtain ⟨k, hk⟩ : ∃ k : Nat, (pos : Int) + 2 + n = k := ⟨((pos : Int) + 2 + n).toNat, by omega⟩
        rw [hk, chunkTail_eq b (by omega)]
        by_cases hneg : n < 0
        · have hno := no_crlf_before hf (e := k) (by omega) (by omega)
          simp [hneg, hno]
        · have hk' : k = pos + 2 + n.toNat := by omega
          have hsz : toSizeT n = n.toNat := toSizeT_nonneg (by omega) (by omega)
          rw [if_neg hneg, ← hk', hsz]
          by_cases hp : crlf <+: b.data.drop k
          · simp only [hp, decide_true, if_true]
            congr 1
          · simp only [hp, decide_false, if_false]

/-! ## one iteration -/

theorem idle_view (c : Core) (b : AutoBuffer) : (idle c b).map view = viewIdle c b.data := by
  unfold idle viewIdle
  rw [b.data_length]
  by_cases h : b.length_ = 0
  · rw [if_pos h, if_pos h]
    rfl
  · rw [if_neg h, if_neg h]
    rfl

theorem fixedLen_le {contentLength : Int} {l d : Nat} (h : (d : Int) ≤ contentLength) :
    fixedLen contentLength l d ≤ l ∧ ((fixedLen contentLength l d + d : Nat) : Int) ≤ contentLength := by
  unfold fixedLen
  split <;> omega

theorem appendLen_eq {contentLength : Int} {l d : Nat} (h0 : 0 ≤ contentLength)
    (h1 : contentLength < 2 ^ 31) (h2 : l + d < 2 ^ 31) (h3 : (d : Int) ≤ contentLength) :
    appendLen contentLength l d = some (fixedLen contentLength l d : Int) := by
  have hle := (fixedLen_le (l := l) h3).1
  unfold appendLen
  rw [toInt32_of_lt h2, toInt32_of_lt (n := l) (by omega), toInt32_of_lt (n := d) (by omega)]
  unfold fixedLen at hle ⊢
  by_cases h : ((l + d : Nat) : Int) ≤ contentLength
  · simp only [if_pos h]
    rw [if_pos (by omega)]
  · simp only [if_neg h] at hle ⊢
    rw [if_pos (by omega)]
    congr 1
    omega

theorem appendData_view (r : BodyReceiver) (b : AutoBuffer) {off len : Nat}
    (h : off + len ≤ b.length_) :
    r.appendData (b.parray_.drop off) len = r.appendData (b.data.drop off) len := by
  unfold BodyReceiver.appendData
  rw [drop_take_data b h]

theorem bodyTurn_view {o : Overload} {c : Core} {b : AutoBuffer} (hs : Sound o (c, b))
    (hi : Inv (c, b)) (hb : c.recvstatus_ = .kBody) :
    (bodyTurn c b (o.guard b.length_)).map view = viewBody c b.data (o.guard b.data.length) := by
  obtain ⟨r, hr, -, hwithin⟩ := hi.within
  have hsmall : b.length_ < 2 ^ 31 := hi.small
  replace hr : c.bodyreceiver_ = some r := hr
  unfold bodyTurn viewBody
  simp only [hr]
  cases hc : c.headfields_.isTransferEncodingChunked with
  | true =>
    simp only [if_true]
    rw [b.data_length, ← chunkAct_view hs hb hr hc hsmall]
    cases ha : chunkAct b (o.guard b.length_) with
    | wild => rfl
    | wait => rfl
    | bad => rfl
    | append off len move =>
      obtain ⟨pos, n, hpos, hn, _, hle, hov, _, htail, rfl, rfl, hm⟩ := chunkAct_append ha
      have hne := ((hs.declared hb r hr).1 hc pos hpos).2.1
      rw [hn] at hne
      have h0 := chunk_nonneg hpos htail hne hle
      have hsz : toSizeT n = n.toNat := toSizeT_nonneg h0 (by omega)
      simp only
      rw [idle_view, AutoBuffer.move_data, appendData_view r b (by omega)]
    | last move =>
      simp only
      rw [idle_view, AutoBuffer.move_data]
  | false =>
    obtain ⟨h0, h2⟩ := (hs.declared hb r hr).2 hc
    replace h2 : b.length_ + r.total_length_ < 2 ^ 31 := h2
    have h3 : (r.total_length_ : Int) ≤ c.headfields_.contentLength := hwithin hb hc h0
    have h1 := (contentLength_range c.headfields_).2
    obtain ⟨h4, h5⟩ := fixedLen_le (l := b.length_) h3
    rw [appendLen_eq h0 h1 h2 h3, b.data_length]
    generalize fixedLen c.headfields_.contentLength b.length_ r.total_length_ = n at h4 h5
    have happ : r.appendData (b.parray_.drop 0) n = r.appendData (b.data.drop 0) n :=
      appendData_view r b (by omega)
    rw [List.drop_zero, List.drop_zero] at happ
    have htot : (r.appendData b.data n).total_length_ = r.total_length_ + n :=
      Nat.mod_eq_of_lt (by omega)
    simp only [Bool.false_eq_true, if_false]
    rw [toSizeT_of_lt (n := n) (by omega), happ, htot, toInt32_of_lt (n := r.total_length_ + n) (by omega)]
    by_cases heq : ((r.total_length_ + n : Nat) : Int) = c.headfields_.contentLength
    · rw [if_pos heq, if_pos heq]
      show Turn.ret (_, (b.move (-(n : Int))).data) = _
      rw [AutoBuffer.move_data]
    · rw [if_neg heq, if_neg heq, idle_view, AutoBuffer.move_data]

theorem afterLine_view {o : Overload} {b : AutoBuffer} (h : b.length_ < 2 ^ 31) (pos : Nat) :
    afterLine o b pos = viewAfterLine o b.data pos := by
  unfold afterLine viewAfterLine
  have e : search b crlf2 = .found pos ↔ findC crlf2 b.data = some pos := by
    rw [search_eq crlf2_ne h]
    cases findC crlf2 b.data with
    | none => simp [Search.ofOption]
    | some q => simp [Search.ofOption]
  simp only [e]

/-- **A sound iteration is an iteration on the received bytes.** -/
theorem turnOn_view {o : Overload} {s : Mem} (hs : Sound o s) (hi : Inv s) :
    (turnOn o s).map view = viewTurn o (view s) := by
  obtain ⟨c, b⟩ := s
  have hsmall : b.length_ < 2 ^ 31 := hi.small
  unfold turnOn viewTurn view
  cases e : c.recvstatus_ with
  | kStart | kFirstLine =>
    simp only [firstLine_view c hsmall]
    cases viewFirstLine c b.data with
    | wild => rfl
    | ret c' => rfl
    | hit pos c' =>
      simp only [afterLine_view hsmall, Turn.map]
      rw [AutoBuffer.move_data]
  | kHeaderFields =>
    simp only [headerFields_view c hsmall]
    cases viewHeaderFields c b.data with
    | wild => rfl
    | ret c' => rfl
    | hit pos c' =>
      simp only [Turn.map]
      rw [AutoBuffer.move_data]
  | kBody => exact bodyTurn_view hs hi e
  | kEnd => rfl
  | kFirstLineError | kHeaderFieldsError | kBodyError => rfl

/-! ## the iterations on received bytes, case by case -/

def AtStart (c : Core) : Prop := c.recvstatus_ = .kStart ∨ c.recvstatus_ = .kFirstLine

/-- every way an iteration on the received bytes can go -/
inductive ViewStep (o : Overload) : View → Turn View → Prop where
  | lineWait {c : Core} {d : Bytes} : AtStart c → findC crlf d = none → d.length ≤ 8 * 1024 →
      ViewStep o (c, d) (.ret ({ c with recvstatus_ := .kFirstLine }, d))
  | lineLong {c : Core} {d : Bytes} : AtStart c → findC crlf d = none → 8 * 1024 < d.length →
      ViewStep o (c, d) (.ret ({ c with recvstatus_ := .kFirstLineError }, d))
  | lineBad {c c' : Core} {d : Bytes} {pos : Nat} : AtStart c → findC crlf d = some pos →
      parseFirstLine c (d.take (pos + 2)) = (false, c') →
      ViewStep o (c, d) (.ret ({ c' with recvstatus_ := .kFirstLineError }, d))
  | line {c c' : Core} {d : Bytes} {pos : Nat} : AtStart c → findC crlf d = some pos →
      parseFirstLine c (d.take (pos + 2)) = (true, c') →
      ViewStep o (c, d) (.again ({ c' with recvstatus_ := (viewAfterLine o d pos).1 },
        d.drop (viewAfterLine o d pos).2))
  | fieldsWait {c : Core} {d : Bytes} : c.recvstatus_ = .kHeaderFields → findC crlf2 d = none →
      d.length ≤ 128 * 1024 → ViewStep o (c, d) (.ret (c, d))
  | fieldsLong {c : Core} {d : Bytes} : c.recvstatus_ = .kHeaderFields → findC crlf2 d = none →
      128 * 1024 < d.length →
      ViewStep o (c, d) (.ret ({ c with recvstatus_ := .kHeaderFieldsError }, d))
  | fields {c : Core} {d : Bytes} {pos : Nat} : c.recvstatus_ = .kHeaderFields →
      findC crlf2 d = some pos →
      ViewStep o (c, d) (.again ({ c with
        headfields_ := (HeaderFields.parserHeaders (d.take (pos + 4)) c.headfields_).2,
        recvstatus_ := .kBody }, d.drop (pos + 4)))
  | noReceiver {c : Core} {d : Bytes} : c.recvstatus_ = .kBody → c.bodyreceiver_ = none →
      ViewStep o (c, d) (viewIdle c d)
  | chunkWait {c : Core} {d : Bytes} {r : BodyReceiver} : c.recvstatus_ = .kBody →
      c.bodyreceiver_ = some r → c.headfields_.isTransferEncodingChunked = true →
      viewChunk d (o.guard d.length) = .wait → ViewStep o (c, d) (.ret (c, d))
  | chunkBad {c : Core} {d : Bytes} {r : BodyReceiver} : c.recvstatus_ = .kBody →
      c.bodyreceiver_ = some r → c.headfields_.isTransferEncodingChunked = true →
      viewChunk d (o.guard d.length) = .bad →
      ViewStep o (c, d) (.ret ({ c with recvstatus_ := .kBodyError }, d))
  | chunk {c : Core} {d : Bytes} {r : BodyReceiver} {off len move : Nat} :
      c.recvstatus_ = .kBody → c.bodyreceiver_ = some r →
      c.headfields_.isTransferEncodingChunked = true →
      viewChunk d (o.guard d.length) = .append off len move →
      ViewStep o (c, d)
        (viewIdle { c with bodyreceiver_ := some (r.appendData (d.drop off) len) } (d.drop move))
  | lastChunk {c : Core} {d : Bytes} {r : BodyReceiver} {move : Nat} : c.recvstatus_ = .kBody →
      c.bodyreceiver_ = some r → c.headfields_.isTransferEncodingChunked = true →
      viewChunk d (o.guard d.length) = .last move →
      ViewStep o (c, d)
        (viewIdle { c with recvstatus_ := .kEnd, bodyreceiver_ := some r } (d.drop move))
  | fixedEnd {c : Core} {d : Bytes} {r : BodyReceiver} {n : Nat} : c.recvstatus_ = .kBody →
      c.bodyreceiver_ = some r → c.headfields_.isTransferEncodingChunked = false →
      fixedLen c.headfields_.contentLength d.length r.total_length_ = n →
      ((r.appendData d n).total_length_ : Int) = c.headfields_.contentLength →
      ViewStep o (c, d)
        (.ret ({ c with recvstatus_ := .kEnd, bodyreceiver_ := some (r.appendData d n) }, d.drop n))
  | fixed {c : Core} {d : Bytes} {r : BodyReceiver} {n : Nat} : c.recvstatus_ = .kBody →
      c.bodyreceiver_ = some r → c.headfields_.isTransferEncodingChunked = false →
      fixedLen c.headfields_.contentLength d.length r.total_length_ = n →
      ((r.appendData d n).total_length_ : Int) ≠ c.headfields_.contentLength →
      ViewStep o (c, d) (viewIdle { c with bodyreceiver_ := some (r.appendData d n) } (d.drop n))
  | done {c : Core} {d : Bytes} : c.recvstatus_ = .kEnd → ViewStep o (c, d) (.ret (c, d))
  | spin {c : Core} {d : Bytes} : c.recvstatus_.error = true → ViewStep o (c, d) (.again (c, d))

theorem viewChunk_ne_wild (d : Bytes) (g : Nat) : viewChunk d g ≠ .wild := by
  unfold viewChunk
  cases findC crlf d with
  | none => simp
  | some pos =>
    simp only
    split
    · split
      · simp
      · cases findC crlf (d.drop (pos + 2)) <;> simp
    · split
      · simp
      · split
        · simp
        · split <;> simp

theorem viewChunk_append_iff {d : Bytes} {g off len move : Nat} :
    viewChunk d g = .append off len move ↔
      ∃ pos : Nat, findC crlf d = some pos ∧ chunkSizeOf (d.take pos) = len ∧ 0 < len ∧
        pos + 2 + len + 2 ≤ d.length ∧ crlf <+: d.drop (pos + 2 + len) ∧
        off = pos + 2 ∧ move = pos + 2 + len + 2 := by
  unfold viewChunk
  cases findC crlf d with
  | none => simp
  | some pos =>
    simp only [Option.some.injEq, exists_eq_left']
    generalize chunkSizeOf (d.take pos) = n
    by_cases h0 : n = 0
    · rw [if_pos h0]
      constructor
      · intro h
        split at h
        · cases h
        · split at h <;> cases h
      · intro h
        omega
    · rw [if_neg h0]
      by_cases hl : (d.length : Int) < n + pos + 4
      · rw [if_pos hl]
        refine ⟨fun h => (by cases h), fun h => ?_⟩
        omega
      · rw [if_neg hl]
        by_cases hneg : n < 0
        · rw [if_pos hneg]
          refine ⟨fun h => (by cases h), fun h => ?_⟩
          omega
        · rw [if_neg hneg]
          by_cases hp : crlf <+: d.drop (pos + 2 + n.toNat)
          · rw [if_pos hp]
            constructor
            · intro h
              cases h
              exact ⟨by omega, by omega, by omega, hp, rfl, rfl⟩
            · rintro ⟨h1, h2, h3, h4, rfl, rfl⟩
              rw [h1, Int.toNat_natCast]
          · rw [if_neg hp]
            refine ⟨fun h => (by cases h), fun ⟨h1, _, _, h4, _⟩ => ?_⟩
            rw [h1, Int.toNat_natCast] at hp
            exact absurd h4 hp

theorem viewChunk_last_iff {d : Bytes} {g move : Nat} :
    viewChunk d g = .last move ↔
      ∃ pos trailer : Nat, findC crlf d = some pos ∧ chunkSizeOf (d.take pos) = 0 ∧ pos + 4 ≤ g ∧
        findC crlf (d.drop (pos + 2)) = some trailer ∧ move = pos + 2 + trailer + 2 := by
  unfold viewChunk
  cases findC crlf d with
  | none => simp
  | some pos =>
    simp only [Option.some.injEq]
    by_cases h0 : chunkSizeOf (d.take pos) = 0
    · rw [if_pos h0]
      by_cases hg : g < pos + 4
      · rw [if_pos hg]
        refine ⟨fun h => (by cases h), ?_⟩
        rintro ⟨q, t, rfl, _, hle, _⟩
        omega
      · rw [if_neg hg]
        cases hf : findC crlf (d.drop (pos + 2)) with
        | none =>
          refine ⟨fun h => (by cases h), ?_⟩
          rintro ⟨q, t, rfl, _, _, ht, _⟩
          rw [hf] at ht
          cases ht
        | some t =>
          constructor
          · intro h
            cases h
            exact ⟨pos, t, rfl, h0, by omega, hf, rfl⟩
          · rintro ⟨q, t', rfl, _, _, ht, rfl⟩
            rw [hf] at ht
            cases ht
            rfl
    · rw [if_neg h0]
      constructor
      · intro h
        split at h
        · cases h
        · split at h
          · cases h
          · split at h <;> cases h
      · rintro ⟨q, t, rfl, hz, _⟩
        exact absurd hz h0

theorem viewTurn_start (o : Overload) {c : Core} (d : Bytes) (h : AtStart c) :
    viewTurn o (c, d) = match viewFirstLine c d with
      | .wild => .wild
      | .ret c' => .ret (c', d)
      | .hit pos c' => .again ({ c' with recvstatus_ := (viewAfterLine o d pos).1 },
          d.drop (viewAfterLine o d pos).2) := by
  unfold viewTurn
  rcases h with h | h
  all_goals simp only [h]

theorem viewTurn_body (o : Overload) {c : Core} (d : Bytes) (h : c.recvstatus_ = .kBody) :
    viewTurn o (c, d) = viewBody c d (o.guard d.length) := by
  unfold viewTurn
  simp only [h]

/-- **The cases are what the iteration does.** -/
theorem viewTurn_step (o : Overload) (s : View) : ViewStep o s (viewTurn o s) := by
  obtain ⟨c, d⟩ := s
  have hstart : AtStart c → ViewStep o (c, d) (viewTurn o (c, d)) := by
    intro h
    rw [viewTurn_start o d h]
    unfold viewFirstLine
    cases hf : findC crlf d with
    | none =>
      simp only
      by_cases hl : 8 * 1024 < d.length
      · rw [if_pos hl]
        exact .lineLong h hf hl
      · rw [if_neg hl]
        exact .lineWait h hf (by omega)
    | some pos =>
      simp only
      rcases hp : parseFirstLine c (d.take (pos + 2)) with ⟨_ | _, c'⟩
      · exact .lineBad h hf hp
      · exact .line h hf hp
  cases e : c.recvstatus_ with
  | kStart => exact hstart (Or.inl e)
  | kFirstLine => exact hstart (Or.inr e)
  | kHeaderFields =>
    unfold viewTurn viewHeaderFields
    simp only [e]
    cases hf : findC crlf2 d with
    | none =>
      simp only
      by_cases hl : 128 * 1024 < d.length
      · rw [if_pos hl]
        exact .fieldsLong e hf hl
      · rw [if_neg hl]
        exact .fieldsWait e hf (by omega)
    | some pos => exact .fields e hf
  | kBody =>
    rw [viewTurn_body o d e]
    unfold viewBody
    split
    · rename_i hr
      exact .noReceiver e hr
    · rename_i r hr
      split
      · rename_i hc
        split
        · rename_i hv
          exact absurd hv (viewChunk_ne_wild _ _)
        · rename_i hv
          exact .chunkWait e hr hc hv
        · rename_i hv
          exact .chunkBad e hr hc hv
        · rename_i hv
          exact .chunk e hr hc hv
        · rename_i hv
          exact .lastChunk e hr hc hv
      · rename_i hc
        simp only
        split
        · rename_i heq
          exact .fixedEnd e hr (by simpa using hc) rfl heq
        · rename_i heq
          exact .fixed e hr (by simpa using hc) rfl heq
  | kEnd =>
    unfold viewTurn
    simp only [e]
    exact .done e
  | kFirstLineError | kHeaderFieldsError | kBodyError =>
    unfold viewTurn
    simp only [e]
    exact .spin (by rw [e]; rfl)

theorem viewTurn_eq {o : Overload} {s : View} {x : Turn View} (h : ViewStep o s x) :
    viewTurn o s = x := by
  cases h with
  | lineWait hst hf hl =>
    rw [viewTurn_start o _ hst]
    simp only [viewFirstLine, hf]
    rw [if_neg (by omega)]
  | lineLong hst hf hl =>
    rw [viewTurn_start o _ hst]
    simp only [viewFirstLine, hf]
    rw [if_pos hl]
  | lineBad hst hf hp =>
    rw [viewTurn_start o _ hst]
    simp only [viewFirstLine, hf, hp]
  | line hst hf hp =>
    rw [viewTurn_start o _ hst]
    simp only [viewFirstLine, hf, hp]
  | fieldsWait hst hf hl =>
    unfold viewTurn
    simp only [hst, viewHeaderFields, hf]
    rw [if_neg (by omega)]
  | fieldsLong hst hf hl =>
    unfold viewTurn
    simp only [hst, viewHeaderFields, hf]
    rw [if_pos hl]
  | fields hst hf =>
    unfold viewTurn
    simp only [hst, viewHeaderFields, hf]
    rfl
  | noReceiver hst hr =>
    rw [viewTurn_body o _ hst]
    simp only [viewBody, hr]
  | chunkWait hst hr hc hv | chunkBad hst hr hc hv | chunk hst hr hc hv =>
    rw [viewTurn_body o _ hst]
    unfold viewBody
    rw [hr]
    simp only [hc, if_true, hv]
  | lastChunk hst hr hc hv =>
    rw [viewTurn_body o _ hst]
    unfold viewBody
    rw [hr]
    simp only [hc, if_true, hv]
    rfl
  | fixedEnd hst hr hc hn heq =>
    rw [viewTurn_body o _ hst]
    unfold viewBody
    rw [hr]
    simp only [hc, Bool.false_eq_true, if_false, hn]
    rw [if_pos heq]
    rfl
  | fixed hst hr hc hn heq =>
    rw [viewTurn_body o _ hst]
    unfold viewBody
    rw [hr]
    simp only [hc, Bool.false_eq_true, if_false, hn]
    rw [if_neg heq]
  | done hst =>
    unfold viewTurn
    simp only [hst]
  | @spin c d hst =>
    unfold viewTurn
    cases e : c.recvstatus_ with
    | kFirstLineError | kHeaderFieldsError | kBodyError => rfl
    | _ =>
      rw [e] at hst
      cases hst

theorem viewIdle_ne_wild (c : Core) (d : Bytes) : viewIdle c d ≠ .wild := by
  unfold viewIdle
  split <;> simp

theorem viewTurn_ne_wild (o : Overload) (s : View) : viewTurn o s ≠ .wild := by
  intro h
  have hs := viewTurn_step o s
  generalize viewTurn o s = x at h hs
  cases hs with
  | noReceiver | chunk | lastChunk | fixed => exact viewIdle_ne_wild _ _ h
  | _ => cases h

/-! ## what sound iterations keep -/

theorem viewIdle_goes {c : Core} {d : Bytes} {v : View} (h : (viewIdle c d).Goes v) : v = (c, d) := by
  unfold viewIdle at h
  split at h
  · exact h.of_ret
  · exact h.of_again

theorem within_early {c c' : Core} (h : Within c)
    (he : c.recvstatus_.toNat < TRecvStatus.kBody.toNat) (hr : c'.bodyreceiver_ = c.bodyreceiver_) :
    Within c' := by
  obtain ⟨r, h1, h2, _⟩ := h
  refine ⟨r, hr.trans h1, fun _ => h2 he, fun _ _ h0 => ?_⟩
  rw [h2 he]
  exact h0

theorem within_late {c : Core} {r : BodyReceiver} (hr : c.bodyreceiver_ = some r)
    (hs : c.recvstatus_ = .kBodyError ∨ c.recvstatus_ = .kEnd) : Within c := by
  refine ⟨r, hr, fun hlt => ?_, fun hb => ?_⟩
  · rcases hs with hs | hs
    · rw [hs] at hlt
      exact absurd hlt (by decide)
    · rw [hs] at hlt
      exact absurd hlt (by decide)
  · rw [hb] at hs
    exact absurd hs (by decide)

theorem appendData_le (r : BodyReceiver) (_body : Bytes) (_length : Nat) :
    (r.appendData _body _length).total_length_ ≤ _length + r.total_length_ := by
  rw [Nat.add_comm]
  exact Nat.mod_le _ _

theorem atStart_lt {c : Core} (h : AtStart c) :
    c.recvstatus_.toNat < TRecvStatus.kBody.toNat := by
  rcases h with h | h
  · rw [h]; decide
  · rw [h]; decide

theorem viewTurn_within {o : Overload} {c : Core} {d : Bytes} {v : View} (h : Within c)
    (hv : (viewTurn o (c, d)).Goes v) : Within v.1 ∧ v.2.length ≤ d.length := by
  have hdrop : ∀ n, (d.drop n).length ≤ d.length := fun n => by
    rw [List.length_drop]
    exact Nat.sub_le _ _
  have hs := viewTurn_step o (c, d)
  generalize viewTurn o (c, d) = x at hv hs
  cases hs with
  | lineWait hst =>
    rw [hv.of_ret]
    exact ⟨within_early h (atStart_lt hst) rfl, Nat.le_refl _⟩
  | lineLong hst =>
    rw [hv.of_ret]
    exact ⟨within_early h (atStart_lt hst) rfl, Nat.le_refl _⟩
  | lineBad hst _ hp =>
    rw [hv.of_ret]
    exact ⟨within_early h (atStart_lt hst) (parseFirstLine_keeps hp).1, Nat.le_refl _⟩
  | line hst _ hp =>
    rw [hv.of_again]
    exact ⟨within_early h (atStart_lt hst) (parseFirstLine_keeps hp).1, hdrop _⟩
  | fieldsWait hst =>
    rw [hv.of_ret]
    exact ⟨h, Nat.le_refl _⟩
  | fieldsLong hst =>
    rw [hv.of_ret]
    exact ⟨within_early h (by rw [hst]; decide) rfl, Nat.le_refl _⟩
  | fields hst =>
    rw [hv.of_again]
    exact ⟨within_early h (by rw [hst]; decide) rfl, hdrop _⟩
  | noReceiver hst =>
    rw [viewIdle_goes hv]
    exact ⟨h, Nat.le_refl _⟩
  | chunkWait hst =>
    rw [hv.of_ret]
    exact ⟨h, Nat.le_refl _⟩
  | chunkBad hst hr =>
    rw [hv.of_ret]
    exact ⟨within_late hr (Or.inl rfl), Nat.le_refl _⟩
  | chunk hst hr hc =>
    rw [viewIdle_goes hv]
    refine ⟨⟨_, rfl, fun hlt => absurd hlt (by simp [hst]), fun _ hc' => ?_⟩, hdrop _⟩
    simp [hc] at hc'
  | lastChunk hst hr =>
    rw [viewIdle_goes hv]
    exact ⟨within_late rfl (Or.inr rfl), hdrop _⟩
  | fixedEnd hst hr =>
    rw [hv.of_ret]
    exact ⟨within_late rfl (Or.inr rfl), hdrop _⟩
  | @fixed _ _ r n hst hr hc hn =>
    rw [viewIdle_goes hv]
    refine ⟨⟨_, rfl, fun hlt => absurd hlt (by simp [hst]), fun _ _ h0 => ?_⟩, hdrop _⟩
    obtain ⟨r', hr', _, hw⟩ := h
    rw [hr] at hr'
    cases hr'
    have hle := (fixedLen_le (l := d.length) (hw hst hc h0)).2
    rw [hn] at hle
    have hmod := appendData_le r d n
    show ((r.appendData d n).total_length_ : Int) ≤ c.headfields_.contentLength
    omega
  | done hst =>
    rw [hv.of_ret]
    exact ⟨h, Nat.le_refl _⟩
  | spin hst =>
    rw [hv.of_again]
    exact ⟨h, Nat.le_refl _⟩

/-- in range an iteration drops bytes at the front of the buffer and does nothing else to it -/
theorem turnOn_drop {o : Overload} {s t : Mem} (hd : Declared s.1 s.2) (hw : Within s.1)
    (h : (turnOn o s).Goes t) : ∃ k : Nat, t.2 = s.2.move (-(k : Int)) := by
  obtain ⟨c, b⟩ := s
  have hzero : b = b.move (-((0 : Nat) : Int)) := (AutoBuffer.move_zero b).symm
  obtain ⟨r, hr, -, hwithin⟩ := hw
  cases e : c.recvstatus_ with
  | kStart | kFirstLine | kFirstLineError | kHeaderFields | kHeaderFieldsError =>
    exact (turnOn_early (s := (c, b)) (by rw [e]; decide) h).2
  | kBody =>
    rw [turnOn_body o b e] at h
    cases bodyTurn_goes hr h with
    | stay => exact ⟨0, hzero⟩
    | append => exact ⟨_, rfl⟩
    | last => exact ⟨_, rfl⟩
    | fixed st hc ha =>
      obtain ⟨h0, h2⟩ := (hd e r hr).2 hc
      rw [appendLen_eq h0 (contentLength_range c.headfields_).2 h2 (hwithin e hc h0)] at ha
      cases ha
      exact ⟨_, rfl⟩
  | kBodyError =>
    unfold turnOn at h
    simp only [e] at h
    rw [h.of_again]
    exact ⟨0, hzero⟩
  | kEnd =>
    unfold turnOn at h
    simp only [e] at h
    rw [h.of_ret]
    exact ⟨0, hzero⟩

/-- `t` comes out of `s` by sound iterations: the buffer does not grow, and a cursor at its end
stays there -/
structure Kept (s t : Mem) : Prop where
  inv : Inv t
  le : t.2.length_ ≤ s.2.length_
  tail : s.2.Tail → t.2.Tail

theorem Kept.refl {s : Mem} (h : Inv s) : Kept s s := ⟨h, Nat.le_refl _, id⟩

theorem Kept.trans {s t u : Mem} (h : Kept s t) (h' : Kept t u) : Kept s u :=
  ⟨h'.inv, Nat.le_trans h'.le h.le, fun ht => h'.tail (h.tail ht)⟩

/-- **A sound iteration keeps the invariant.** -/
theorem turnOn_keep {o : Overload} {s t : Mem} (hs : Sound o s) (hi : Inv s)
    (h : (turnOn o s).Goes t) : Kept s t := by
  have hv := h.map view
  rw [turnOn_view hs hi] at hv
  obtain ⟨hw, hlen⟩ := viewTurn_within hi.within hv
  have hlen' : t.2.length_ ≤ s.2.length_ := by
    rw [← t.2.data_length, ← s.2.data_length]
    exact hlen
  refine ⟨⟨Nat.lt_of_le_of_lt hlen' hi.small, hw⟩, hlen', fun ht => ?_⟩
  obtain ⟨k, hk⟩ := turnOn_drop hs.declared hi.within h
  rw [hk]
  exact ht.move _

end Http
