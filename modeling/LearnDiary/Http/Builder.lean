import LearnDiary.Http.Message

/-!
# `http::Builder` (comm/http.cc) against the parser

`HttpToBuffer` asks `MakeContentLength` for the length field and throws the result away, so a body
comes back only when the caller has put the right length into the fields; and for an empty body it
writes nothing at all.

* `httpToBuffer_block`   what is written for a body that is not empty;
* `fixed_total`          a body of fixed length comes back as a whole only when its length was
  announced;
* `chunked_total`        a body read as chunks never comes back as a whole;
* `builder_round_trip`   the result.
-/

namespace Http
open Loop
open HeaderFields (HeaderLine lines)

/-! ## the builder -/

/-- `BufferBodyProvider` -/
structure BufferBodyProvider where
  buffer_ : AutoBuffer

namespace BufferBodyProvider

def length (p : BufferBodyProvider) : Nat := p.buffer_.length_

/-- `FillData`; `Ptr()` is null as long as nothing has been allocated -/
def fillData (p : BufferBodyProvider) (_body : AutoBuffer) :
    Bool × BufferBodyProvider × AutoBuffer :=
  if p.buffer_.capacity = 0 then (false, p, _body)
  else (true, ⟨.empty p.buffer_.malloc_unitsize_ p.buffer_.unit_pos⟩, _body.write p.buffer_.data)

end BufferBodyProvider

/-- an `IStreamBodyProvider`, of which the builder asks this much -/
structure StreamBody where
  haveData : Bool
  data : AutoBuffer → Bool × AutoBuffer

structure Builder where
  csmode_ : TCsMode
  requestline_ : RequestLine := {}
  statusline_ : StatusLine := {}
  headfields_ : HeaderFields := {}
  blockbody_ : Option BufferBodyProvider := none
  streambody_ : Option StreamBody := none

namespace Builder

def firstline (b : Builder) : Bytes :=
  match b.csmode_ with
  | .kRequest => b.requestline_.toString
  | .kRespond => b.statusline_.toString

def headerToBuffer (b : Builder) (_header : AutoBuffer) : Bool × AutoBuffer :=
  if b.firstline = [] then (false, _header)
  else
    let strheaders := b.headfields_.toString
    if strheaders = [] then (false, _header)
    else (true, ((_header.write b.firstline).write strheaders).write crlf)

/-- the results of `MakeContentLength` and `MakeTransferEncodingChunked` are not used -/
def httpToBuffer (b : Builder) (_http : AutoBuffer) : Bool × Builder × AutoBuffer :=
  match b.blockbody_ with
  | some blockbody =>
    if 0 < blockbody.length then
      match b.headerToBuffer _http with
      | (false, http) => (false, b, http)
      | (true, http) =>
        let (ok, blockbody', http') := blockbody.fillData http
        (ok, { b with blockbody_ := some blockbody' }, http')
    else (true, b, _http)
  | none =>
    match b.streambody_ with
    | some streambody =>
      match b.headerToBuffer _http with
      | (false, http) => (false, b, http)
      | (true, http) =>
        if streambody.haveData then
          let (ok, http') := streambody.data http
          (ok, b, http')
        else (true, b, http)
    | none =>
      let (ok, http) := b.headerToBuffer _http
      (ok, b, http)

/-- a valid line for the mode, well-formed fields -/
structure Valid (b : Builder) : Prop where
  line : match b.csmode_ with
    | .kRequest => b.requestline_.Valid
    | .kRespond => b.statusline_.Valid
  fields : b.headfields_.WellFormed

def message (b : Builder) (body : Bytes) : Message :=
  ⟨b.firstline.take (b.firstline.length - 2), b.headfields_.headers_.entries.map HeaderFields.line,
    body⟩

end Builder

def withLength (f : HeaderFields) (body : Bytes) : HeaderFields :=
  f.headerFiled (HeaderFields.makeContentLength body.length).1
    (HeaderFields.makeContentLength body.length).2

/-- when `HttpToBuffer` returns true, a fresh parser reads the output up to `kEnd`, in the mode of
the builder, with its fields and the length field, and hands over the body -/
def RoundTrip (b : Builder) (body : Bytes) (_http : AutoBuffer) : Prop :=
  (b.httpToBuffer _http).1 = true →
    ∃ q, Recv {} (b.httpToBuffer _http).2.2.data q ∧ q.recvstatus_ = .kEnd ∧
      q.csmode_ = b.csmode_ ∧ q.headfields_ = withLength b.headfields_ body ∧
      q.bodyreceiver_ = some ⟨body.length, body⟩

/-! ## what is written -/

theorem parseFirstLine_mode {md : TCsMode} {t : Bytes} (h : FirstLine md t) :
    (parseFirstLine {} (t ++ crlf)).1 = true ∧
      (parseFirstLine {} (t ++ crlf)).2.csmode_ = md := by
  have hmode := h.mode
  have hacc := h.accepts
  unfold parseFirstLine
  cases md with
  | kRespond =>
    have hs := hacc ({} : Core).statusline_
    rw [if_pos (by rw [hmode]; rfl)]
    split
    · exact ⟨rfl, rfl⟩
    · rename_i e
      rw [e] at hs
      cases hs
  | kRequest =>
    have hs := hacc ({} : Core).requestline_
    rw [if_neg (by rw [hmode]; decide)]
    split
    · exact ⟨rfl, rfl⟩
    · rename_i e
      rw [e] at hs
      cases hs

section
variable {b : Builder} {body : Bytes}

theorem builder_line (h : b.Valid) : ∃ t, b.firstline = t ++ crlf ∧ FirstLine b.csmode_ t := by
  have hl := h.line
  unfold Builder.firstline
  cases hm : b.csmode_ with
  | kRequest =>
    rw [hm] at hl
    exact RequestLine.firstLine hl
  | kRespond =>
    rw [hm] at hl
    exact StatusLine.firstLine hl

theorem builder_firstline (h : b.Valid) (body : Bytes) :
    b.firstline = (b.message body).firstline ++ crlf ∧
      FirstLine b.csmode_ (b.message body).firstline := by
  obtain ⟨t, ht, hf⟩ := builder_line h
  have e : (b.message body).firstline = t := by
    unfold Builder.message
    simp [ht, crlf]
  rw [e]
  exact ⟨ht, hf⟩

theorem builder_head (h : b.Valid) (body : Bytes) : (b.message body).Head where
  line := (builder_firstline h body).2.bytes
  accepted := (parseFirstLine_mode (builder_firstline h body).2).1
  fields := h.fields.lines

theorem builder_headfields (h : b.Valid) (body : Bytes) :
    (b.message body).headfields = b.headfields_ := by
  unfold Message.headfields Builder.message
  rw [← HeaderFields.toString_eq, HeaderFields.parserHeaders_toString h.fields]

theorem builder_core (h : b.Valid) (body : Bytes) :
    (b.message body).bodyCore.csmode_ = b.csmode_ ∧
      (b.message body).bodyCore.headfields_ = b.headfields_ ∧
      (b.message body).bodyCore.bodyreceiver_ = some {} :=
  ⟨(parseFirstLine_mode (builder_firstline h body).2).2, builder_headfields h body,
    (lineCore_keeps _).1⟩

theorem toString_nil_iff (f : HeaderFields) : f.toString = [] ↔ f.headers_.entries = [] := by
  rw [HeaderFields.toString_eq]
  cases f.headers_.entries with
  | nil => exact ⟨fun _ => rfl, fun _ => rfl⟩
  | cons e l => simp [HeaderFields.lines_cons, crlf]

theorem headerToBuffer_text (h : b.Valid) {_header : AutoBuffer} (h0 : _header.length_ = 0)
    (hf : b.headfields_.headers_.entries ≠ []) (body : Bytes) :
    (b.headerToBuffer _header).1 = true ∧
      (b.headerToBuffer _header).2.data ++ body = (b.message body).text ∧
      (b.headerToBuffer _header).2.pos_ = (b.headerToBuffer _header).2.length_ := by
  have hpos : _header.pos_ = _header.length_ := by
    have := _header.pos_le
    omega
  have hnil : _header.data = [] := by
    unfold AutoBuffer.data
    rw [h0, List.take_zero]
  obtain ⟨hline, -⟩ := builder_firstline h body
  have hline0 : b.firstline ≠ [] := by
    rw [hline]
    simp [crlf]
  have hstr : b.headfields_.toString ≠ [] := fun e => hf ((toString_nil_iff _).mp e)
  have hheader : b.headerToBuffer _header
      = (true, ((_header.write b.firstline).write b.headfields_.toString).write crlf) := by
    unfold Builder.headerToBuffer
    rw [if_neg hline0]
    simp only [if_neg hstr]
  have p1 := (AutoBuffer.write_end hpos b.firstline).1
  have p2 := (AutoBuffer.write_end p1 b.headfields_.toString).1
  rw [hheader]
  refine ⟨rfl, ?_, (AutoBuffer.write_end p2 crlf).1⟩
  rw [AutoBuffer.write_data _ _ p2, AutoBuffer.write_data _ _ p1, AutoBuffer.write_data _ _ hpos, hnil,
    hline, HeaderFields.toString_eq]
  simp [Message.text, Builder.message]

theorem httpToBuffer_block (h : b.Valid) {p : BufferBodyProvider} {_http : AutoBuffer}
    (hp : b.blockbody_ = some p) (hbody : p.buffer_.data = body) (hne : body ≠ [])
    (h0 : _http.length_ = 0) (hf : b.headfields_.headers_.entries ≠ []) :
    (b.httpToBuffer _http).1 = true ∧
      (b.httpToBuffer _http).2.2.data = (b.message body).text := by
  have hlen : 0 < p.length := by
    unfold BufferBodyProvider.length
    rw [← p.buffer_.data_length, hbody]
    exact List.length_pos_iff.mpr hne
  have hcap : p.buffer_.capacity ≠ 0 := by
    have h1 : p.buffer_.length_ ≤ p.buffer_.capacity := p.buffer_.length_le
    have h2 : 0 < p.buffer_.length_ := hlen
    omega
  have hfill : ∀ x, p.fillData x = (true, ⟨.empty p.buffer_.malloc_unitsize_ p.buffer_.unit_pos⟩,
      x.write p.buffer_.data) := fun x => by
    unfold BufferBodyProvider.fillData
    rw [if_neg hcap]
  obtain ⟨hok, htext, hpos⟩ := headerToBuffer_text h h0 hf body
  have hheader : b.headerToBuffer _http = (true, (b.headerToBuffer _http).2) := Prod.ext hok rfl
  unfold Builder.httpToBuffer
  simp only [hp, if_pos hlen, hfill]
  rw [hheader]
  exact ⟨rfl, (AutoBuffer.write_data _ _ hpos).trans (by rw [hbody, htext])⟩

end

/-! ## a body without chunks -/

theorem idle_ret {c : Core} {b : AutoBuffer} {t : Mem} (h : idle c b = .ret t) : t = (c, b) :=
  idle_goes (Or.inr h)

/-- a body of fixed length ends when the delivered bytes count, as an `int`, what was announced -/
theorem fixed_end {o : Overload} {s t : Mem} (h : Returns (turnOn o) s t)
    (hst : s.1.recvstatus_ = .kBody) (hc : s.1.headfields_.isTransferEncodingChunked = false)
    (hr : s.1.bodyreceiver_ ≠ none) (hend : t.1.recvstatus_ = .kEnd) :
    ∃ r, t.1.bodyreceiver_ = some r ∧
      toInt32 r.total_length_ = s.1.headfields_.contentLength := by
  induction h with
  | @ret s t e =>
    obtain ⟨c, b⟩ := s
    obtain ⟨r, hr⟩ := Option.ne_none_iff_exists'.mp hr
    rw [turnOn_body o b hst, bodyTurn_unchunked hr hc] at e
    split at e
    · cases e
    · split at e
      · rename_i heq
        cases e
        exact ⟨_, rfl, heq⟩
      · rw [idle_ret e] at hend
        exact absurd (hst.symm.trans hend) (by decide)
  | @again s u t e _ ih =>
    obtain ⟨c, b⟩ := s
    obtain ⟨r, hr⟩ := Option.ne_none_iff_exists'.mp hr
    rw [turnOn_body o b hst, bodyTurn_unchunked hr hc] at e
    split at e
    · cases e
    · split at e
      · cases e
      · obtain ⟨rfl, -⟩ := idle_again e
        exact ih hst hc (by simp) hend

theorem toSizeT_small {a : Int} {n : Nat} (h1 : -2 ^ 31 ≤ a) (h2 : a < 2 ^ 31) (hn : n < 2 ^ 63)
    (h : (0 + toSizeT a) % 2 ^ 64 = n) : a = n := by
  unfold toSizeT at h
  omega

/-- **A body of fixed length that comes back as a whole** was announced with its length. -/
theorem fixed_total {o : Overload} {c : Core} {b : AutoBuffer} {t : Mem} {body : Bytes}
    (h : Returns (turnOn o) (c, b) t) (hst : c.recvstatus_ = .kBody)
    (hc : c.headfields_.isTransferEncodingChunked = false) (hr : c.bodyreceiver_ = some {})
    (hlen : b.length_ < 2 ^ 63) (hend : t.1.recvstatus_ = .kEnd)
    (ht : t.1.bodyreceiver_ = some ⟨b.length_, body⟩) :
    c.headfields_.contentLength = b.length_ := by
  obtain ⟨r, hr', hint⟩ := fixed_end h hst hc (by rw [show (c, b).1.bodyreceiver_ = _ from hr]; simp) hend
  rw [ht] at hr'
  cases hr'
  replace hint : toInt32 b.length_ = c.headfields_.contentLength := hint
  have hrange := contentLength_range c.headfields_
  -- so the first iteration takes all bytes, and ends the message
  have hturn := (turnOn_body o b hst).trans (bodyTurn_unchunked hr hc)
  have happ : appendLen c.headfields_.contentLength b.length_ 0
      = if -2 ^ 31 < c.headfields_.contentLength then some c.headfields_.contentLength else none := by
    unfold appendLen
    rw [Nat.add_zero, hint, if_pos (Int.le_refl _)]
    simp only
    by_cases hlow : -2 ^ 31 < c.headfields_.contentLength
    · rw [if_pos hlow, if_pos ⟨hlow, hrange.2⟩]
    · rw [if_neg hlow, if_neg (fun h => hlow h.1)]
  rw [happ] at hturn
  by_cases hlow : -2 ^ 31 < c.headfields_.contentLength
  · rw [if_pos hlow] at hturn
    simp only at hturn
    have htot : toInt32 (BodyReceiver.appendData {} b.parray_
        (toSizeT c.headfields_.contentLength)).total_length_ = c.headfields_.contentLength := by
      show toInt32 (((0 + toSizeT c.headfields_.contentLength) % 2 ^ 64 : Nat) : Int) = _
      rw [toInt32_sizeT, Int.natCast_zero, Int.zero_add, toInt32_eq hrange.1 hrange.2]
    rw [if_pos htot] at hturn
    rw [h.det (.ret hturn)] at ht
    have hb : (0 + toSizeT c.headfields_.contentLength) % 2 ^ 64 = b.length_ :=
      congrArg BodyReceiver.total_length_ (Option.some.inj ht)
    exact toSizeT_small hrange.1 hrange.2 hlen hb
  · rw [if_neg hlow] at hturn
    cases h with
    | ret e => rw [hturn] at e; cases e
    | again e _ => rw [hturn] at e; cases e

/-! ## a body with chunks -/

theorem chunkAct_last {b : AutoBuffer} {g move : Nat} (h : chunkAct b g = .last move) :
    ∃ pos, search b crlf = .found pos ∧ pos + 4 ≤ g := by
  unfold chunkAct at h
  split at h
  · cases h
  · cases h
  · rename_i pos hpos
    have hlt := search_found_lt crlf_ne hpos
    have h2 : crlf.length = 2 := rfl
    simp only at h
    split at h
    · split at h
      · cases h
      · split at h
        · cases h
        · split at h <;> cases h
    · split at h
      · cases h
      · rename_i hg
        exact ⟨pos, hpos, by omega⟩

/-- `D` is the exact count of the delivered bytes, of which `total_length_` is the residue: every
chunk of `D` bytes more takes more than these from the buffer, and a size of `-2` takes two -/
structure Counted (n : Nat) (s : Mem) (D : Int) : Prop where
  chunked : s.1.headfields_.isTransferEncodingChunked = true
  total : ∃ r, s.1.bodyreceiver_ = some r ∧ (2 ^ 64 : Int) ∣ r.total_length_ - D
  low : -(n : Int) ≤ D
  body : s.1.recvstatus_ = .kBody → D + s.2.length_ ≤ n ∧ -(n : Int) + s.2.length_ ≤ D
  ended : s.1.recvstatus_ = .kEnd → D + 4 ≤ n
  status : s.1.recvstatus_ = .kBody ∨ s.1.recvstatus_ = .kBodyError ∨ s.1.recvstatus_ = .kEnd

theorem dvd_appendData (r : BodyReceiver) (d : Bytes) {D size : Int}
    (h : (2 ^ 64 : Int) ∣ r.total_length_ - D) :
    (2 ^ 64 : Int) ∣ (r.appendData d (toSizeT size)).total_length_ - (D + size) := by
  show (2 ^ 64 : Int) ∣ ((r.total_length_ + toSizeT size) % 2 ^ 64 : Nat) - (D + size)
  unfold toSizeT
  omega

theorem counted_step {n : Nat} {s t : Mem} {D : Int} (h : Counted n s D)
    (ht : (turnOn rawOverload s).Goes t) : ∃ D', Counted n t D' := by
  obtain ⟨c, b⟩ := s
  obtain ⟨hc, ⟨r, hr, hdvd⟩, hlow, hbody, hended, hst⟩ := h
  rcases hst with hst | hst | hst
  · obtain ⟨h1, h2⟩ := hbody hst
    rw [turnOn_body rawOverload b hst] at ht
    cases bodyTurn_goes hr ht with
    | stay st _ _ hst' =>
      refine ⟨D, hc, ⟨r, hr, hdvd⟩, hlow, fun _ => ⟨h1, h2⟩, fun e => ?_, ?_⟩
      · rcases hst' with rfl | rfl
        · exact absurd (hst.symm.trans e) (by decide)
        · cases e
      · rcases hst' with rfl | rfl
        · exact Or.inl hst
        · exact Or.inr (Or.inl rfl)
    | append _ hact =>
      obtain ⟨pos, size, hpos, -, hne, hle, -, -, htail, rfl, rfl, hm⟩ := chunkAct_append hact
      have hsize : 0 < size ∨ size = -2 := by
        by_cases h2 : size = -2
        · exact Or.inr h2
        · have := chunk_nonneg hpos htail h2 hle
          omega
      have hlen := AutoBuffer.move_length b
      refine ⟨D + size, hc, ⟨_, rfl, dvd_appendData r _ hdvd⟩, ?_, fun _ => ?_, fun e => ?_, Or.inl hst⟩
      · replace h1 : D + b.length_ ≤ n := h1
        replace h2 : -(n : Int) + b.length_ ≤ D := h2
        omega
      · replace h1 : D + b.length_ ≤ n := h1
        replace h2 : -(n : Int) + b.length_ ≤ D := h2
        simp only [hlen]
        omega
      · exact absurd (hst.symm.trans e) (by decide)
    | last _ hact =>
      obtain ⟨pos, hpos, hg⟩ := chunkAct_last hact
      replace hg : pos + 4 ≤ b.length_ := hg
      replace h1 : D + b.length_ ≤ n := h1
      exact ⟨D, hc, ⟨r, rfl, hdvd⟩, hlow, fun e => (by cases e), fun _ => (by omega),
        Or.inr (Or.inr rfl)⟩
    | fixed _ hc' => exact absurd (hc.symm.trans hc') (by decide)
  · replace hst : c.recvstatus_ = .kBodyError := hst
    unfold turnOn at ht
    simp only [hst] at ht
    rw [ht.of_again]
    exact ⟨D, hc, ⟨r, hr, hdvd⟩, hlow, hbody, hended, Or.inr (Or.inl hst)⟩
  · replace hst : c.recvstatus_ = .kEnd := hst
    unfold turnOn at ht
    simp only [hst] at ht
    rw [ht.of_ret]
    exact ⟨D, hc, ⟨r, hr, hdvd⟩, hlow, hbody, hended, Or.inr (Or.inr hst)⟩

/-- **A body read as chunks never comes back as a whole.** -/
theorem chunked_total {c : Core} {b : AutoBuffer} {t : Mem}
    (h : Returns (turnOn rawOverload) (c, b) t) (hst : c.recvstatus_ = .kBody)
    (hc : c.headfields_.isTransferEncodingChunked = true) (hr : c.bodyreceiver_ = some {})
    (hlen : b.length_ < 2 ^ 63) (hend : t.1.recvstatus_ = .kEnd) {body : Bytes} :
    t.1.bodyreceiver_ ≠ some ⟨b.length_, body⟩ := by
  have h0 : Counted b.length_ (c, b) 0 := by
    refine ⟨hc, ⟨{}, hr, ⟨0, rfl⟩⟩, by omega, fun _ => ?_, fun e => ?_, Or.inl hst⟩
    · show (0 : Int) + b.length_ ≤ b.length_ ∧ -(b.length_ : Int) + b.length_ ≤ 0
      omega
    · exact absurd (hst.symm.trans e) (by decide)
  obtain ⟨u, hu, e⟩ := h.last
  obtain ⟨D, hD⟩ := hu.keep (P := fun s => ∃ D, Counted b.length_ s D)
    (fun s t hs e => hs.elim fun D hD => counted_step hD (Or.inl e)) ⟨0, h0⟩
  obtain ⟨D', -, ⟨r, hr', hdvd⟩, hlow, -, hended, -⟩ := counted_step hD (Or.inr e)
  have h4 := hended hend
  intro ht
  rw [ht] at hr'
  cases hr'
  replace hdvd : (2 ^ 64 : Int) ∣ (b.length_ : Int) - D' := hdvd
  omega

/-! ## the round trip -/

theorem found_length {b : AutoBuffer} {pat : Bytes} {pos : Nat} (hp : pat ≠ [])
    (h : search b pat = .found pos) : b.length_ < 2 ^ 31 ∨ 2 ^ 32 ≤ b.length_ := by
  by_contra hno
  obtain ⟨h1, h2⟩ := not_or.mp hno
  have hneg := toInt32_neg (n := b.length_) (by omega) (by omega)
  exact strnstr_neg hp hneg pos h

/-- a message that is read up to `kEnd` is read from its body on; and when its body is short, it is
short -/
theorem message_back {m : Message} (hm : m.Head) (hne : m.fields ≠ []) {b : AutoBuffer}
    (hd : b.data = m.text) {t : Mem} (h : Returns (turnOn rawOverload) ({}, b) t)
    (hend : t.1.recvstatus_ = .kEnd) :
    ∃ b', b'.data = m.body ∧ Returns (turnOn rawOverload) (m.bodyCore, b') t ∧
      (m.body.length < 2 ^ 31 → m.text.length < 2 ^ 31) := by
  have hline := message_line rawOverload hm hne hd
  cases e : search b crlf with
  | wild =>
    rw [e] at hline
    cases h with
    | ret h => rw [hline] at h; cases h
    | again h => rw [hline] at h; cases h
  | null =>
    rw [e] at hline
    rw [h.det (.ret hline)] at hend
    simp only at hend
    split at hend <;> cases hend
  | found pos =>
    rw [e] at hline
    have h1 := search_found_lt crlf_ne e
    have h2 : crlf.length = 2 := rfl
    obtain rfl := search_line (t := []) hm.line (by rw [List.append_nil]; exact hd) e
    have hd1 := line_moved hd
    have hl1 := AutoBuffer.move_length b (m.firstline.length + 2)
    have hle : m.firstline.length + 2 ≤ b.length_ := search_found_le crlf_ne e
    generalize hb1 : b.move (-((m.firstline.length + 2 : Nat) : Int)) = b1 at hline hd1 hl1
    have hr1 : Returns (turnOn rawOverload) (m.lineCore, b1) t :=
      h.from_reached (.step hline (.refl _))
    have hfields := message_fields rawOverload hm hne hd1
    cases e1 : search b1 crlf2 with
    | wild =>
      rw [e1] at hfields
      cases hr1 with
      | ret h => rw [hfields] at h; cases h
      | again h => rw [hfields] at h; cases h
    | null =>
      rw [e1] at hfields
      rw [hr1.det (.ret hfields)] at hend
      simp only at hend
      split at hend <;> cases hend
    | found k =>
      rw [e1] at hfields
      refine ⟨_, fields_moved hd1, hr1.from_reached (.step hfields (.refl _)), fun hbody => ?_⟩
      have h3 := search_found_lt crlf2_ne e1
      have h4 : crlf2.length = 4 := rfl
      obtain ⟨j, hj, hj2⟩ := HeaderFields.findC_crlf2_lines hm.fields hne m.body
      have hk : findC crlf2 b1.data = some k := search_found crlf2_ne e1
      rw [hd1, hj] at hk
      cases hk
      have hlen1 : b1.length_ = (lines m.fields).length + (2 + m.body.length) := by
        rw [← b1.data_length, hd1, List.length_append, List.length_append]
        rfl
      have hlen : m.text.length = b.length_ := by rw [← b.data_length, hd]
      have h5 := found_length crlf_ne e
      have h6 := found_length crlf2_ne e1
      omega

def outputLength (b : Builder) (body : Bytes) : Nat :=
  b.firstline.length + b.headfields_.toString.length + crlf.length + body.length

/-- the body is not empty, and when there are fields, they announce it: not as chunks, and with its
length; and the output is shorter than `2^31` -/
def Announced (b : Builder) (body : Bytes) : Prop :=
  body ≠ [] ∧ (b.headfields_.headers_.entries = [] ∨
    (b.headfields_.isTransferEncodingChunked = false ∧
      b.headfields_.contentLength = body.length ∧ outputLength b body < 2 ^ 31))

theorem text_length {b : Builder} (h : b.Valid) (body : Bytes) :
    (b.message body).text.length = outputLength b body := by
  unfold outputLength
  rw [(builder_firstline h body).1, HeaderFields.toString_eq]
  simp only [Message.text, Builder.message, List.length_append]
  omega

theorem withLength_self {f : HeaderFields} {body : Bytes} (hne : body ≠ [])
    (h : f.contentLength = body.length) : withLength f body = f := by
  unfold withLength HeaderFields.makeContentLength
  simp only
  rw [HeaderFields.headerFiled_eq_self]
  have hpos : 0 < body.length := List.length_pos_iff.mpr hne
  unfold HeaderFields.contentLength at h
  split at h
  · rename_i e
    rw [e]
    rfl
  · omega

/-- **Builder and parser.**  For a valid line and well-formed fields, a block body comes back from a
fresh parser exactly when it is announced: `HttpToBuffer` does not do so itself. -/
theorem builder_round_trip {b : Builder} {p : BufferBodyProvider} {body : Bytes}
    {_http : AutoBuffer} (h : b.Valid) (hp : b.blockbody_ = some p) (hbody : p.buffer_.data = body)
    (h0 : _http.length_ = 0) (hmem : outputLength b body < 2 ^ 63) :
    RoundTrip b body _http ↔ Announced b body := by
  by_cases hne : body = []
  · -- nothing is written, so nothing is read
    refine ⟨fun hrt => ?_, fun ha => absurd hne ha.1⟩
    have hlen : p.length = 0 := by
      unfold BufferBodyProvider.length
      rw [← p.buffer_.data_length, hbody, hne]
      rfl
    have hout : b.httpToBuffer _http = (true, b, _http) := by
      unfold Builder.httpToBuffer
      simp only [hp, hlen, Nat.lt_irrefl, if_false]
    obtain ⟨q, hq, hend, -⟩ := hrt (by rw [hout])
    rw [hout] at hq
    have hnil : _http.data = [] := by
      unfold AutoBuffer.data
      rw [h0, List.take_zero]
    unfold Recv at hq
    rw [if_pos hnil] at hq
    rw [hq] at hend
    cases hend
  · by_cases hf : b.headfields_.headers_.entries = []
    · -- no fields: `HttpToBuffer` returns false
      refine ⟨fun _ => ⟨hne, Or.inl hf⟩, fun _ hok => ?_⟩
      have hlen : 0 < p.length := by
        unfold BufferBodyProvider.length
        rw [← p.buffer_.data_length, hbody]
        exact List.length_pos_iff.mpr hne
      have hheader : b.headerToBuffer _http = (false, _http) := by
        unfold Builder.headerToBuffer
        simp only [(toString_nil_iff _).mpr hf, if_true]
        split <;> rfl
      unfold Builder.httpToBuffer at hok
      simp only [hp, if_pos hlen, hheader] at hok
      cases hok
    · obtain ⟨hok, hdata⟩ := httpToBuffer_block h hp hbody hne h0 hf
      have hhead := builder_head h body
      have hfields : (b.message body).fields ≠ [] := by
        unfold Builder.message
        simpa using hf
      obtain ⟨hmode, hhf, hrec⟩ := builder_core h body
      have hw : (AutoBuffer.new.write (b.message body).text).data = (b.message body).text :=
        AutoBuffer.write_data _ _ rfl
      have htext := text_length h body
      constructor
      · intro hrt
        obtain ⟨q, hq, hend, -, -, hbr⟩ := hrt hok
        rw [hdata] at hq
        obtain ⟨b', hd', hr, hshort⟩ := message_back hhead hfields hw
          (recv_mem (p := {}) (text_ne_nil _) hq) hend
        have hlen' : b'.length_ = body.length := by
          rw [← b'.data_length, hd']
          rfl
        have hlt : b'.length_ < 2 ^ 63 := by
          unfold outputLength at hmem
          omega
        rw [← hlen'] at hbr
        refine ⟨hne, Or.inr ?_⟩
        cases hc : b.headfields_.isTransferEncodingChunked with
        | true =>
          exact absurd hbr (chunked_total (c := (b.message body).bodyCore) hr rfl
            (by rw [hhf]; exact hc) hrec hlt hend)
        | false =>
          have hl := fixed_total (c := (b.message body).bodyCore) hr rfl (by rw [hhf]; exact hc) hrec
            hlt hend hbr
          rw [hhf, hlen'] at hl
          have hrange := (contentLength_range b.headfields_).2
          refine ⟨rfl, hl, ?_⟩
          rw [← htext]
          exact hshort (by show body.length < 2 ^ 31; omega)
      · rintro ⟨-, hann⟩ -
        obtain hnil | ⟨hc, hl, hlt⟩ := hann
        · exact absurd hnil hf
        · obtain ⟨b', hr, hd'⟩ := message_reaches rawOverload hhead hfields hw
            (by rw [← AutoBuffer.data_length, hw, htext]; exact hlt)
          have hlen' : b'.length_ = body.length := by
            rw [← b'.data_length, hd']
            rfl
          have hturn := turnOn_fixed rawOverload (c := (b.message body).bodyCore) (b := b') rfl
            (by rw [hhf]; exact hc) hrec rfl (by rw [hhf, hlen']; exact hl)
          obtain ⟨q, hq, hmem'⟩ := mem_recv (p := {}) (text_ne_nil _)
            (Returns.of_reaches hr (.ret hturn))
          have hcore := congrArg Prod.fst hmem'
          replace hcore : q.toCore = _ := hcore
          refine ⟨q, by rw [hdata]; exact hq, by rw [hcore], by rw [hcore]; exact hmode, ?_, ?_⟩
          · rw [withLength_self hne hl, hcore]
            exact hhf
          · rw [hcore, hlen', hd']
            have hmod : (0 + body.length) % 2 ^ 64 = body.length := by
              have := (contentLength_range b.headfields_).2
              omega
            show some (BodyReceiver.mk ((0 + body.length) % 2 ^ 64) ([] ++ body.take body.length)) = _
            rw [hmod, List.nil_append, List.take_length]

/-- a response with one field and the body `hello` -/
def helloBuilder (name value : Bytes) : Builder where
  csmode_ := .kRespond
  statusline_ := { http_version_ := .kVersion_1_1, statuscode_ := 200, reason_phrase_ := ascii "OK" }
  headfields_ := HeaderFields.headerFiled {} name value
  blockbody_ := some ⟨AutoBuffer.new.write (ascii "hello")⟩

theorem builder_round_trip_hello :
    RoundTrip (helloBuilder (ascii "Content-Length") (ascii "5")) (ascii "hello") .new :=
  (builder_round_trip (b := helloBuilder (ascii "Content-Length") (ascii "5"))
    (p := ⟨AutoBuffer.new.write (ascii "hello")⟩)
    ⟨⟨by decide, by decide +kernel⟩, by decide +kernel⟩ rfl (by decide +kernel) rfl
    (by decide +kernel)).mpr
    ⟨by decide, Or.inr ⟨by decide +kernel, by decide +kernel, by decide +kernel⟩⟩

/-- **A body without a length field**: the parser ends with nothing of it delivered. -/
theorem builder_drops_body : (helloBuilder (ascii "Host") (ascii "a")).Valid ∧
    ¬ RoundTrip (helloBuilder (ascii "Host") (ascii "a")) (ascii "hello") .new := by
  have hread : ∃ q, Recv {} ((helloBuilder (ascii "Host") (ascii "a")).httpToBuffer .new).2.2.data q ∧
      q.bodyreceiver_ = some ⟨0, []⟩ := by
    obtain ⟨q, hq, hbr⟩ := recv_of_within (n := 9) (p := {})
      (d := ((helloBuilder (ascii "Host") (ascii "a")).httpToBuffer .new).2.2.data)
      (f := fun q => q.bodyreceiver_ == some ⟨0, []⟩) (by decide +kernel)
    exact ⟨q, hq, by simpa using hbr⟩
  refine ⟨⟨⟨by decide, by decide +kernel⟩, by decide +kernel⟩, fun hrt => ?_⟩
  replace hrt := hrt (by decide +kernel)
  generalize ((helloBuilder (ascii "Host") (ascii "a")).httpToBuffer .new).2.2.data = out at hrt hread
  obtain ⟨q, hq, -, -, -, hbr⟩ := hrt
  obtain ⟨q', hq', hbr'⟩ := hread
  rw [hq.det hq', hbr'] at hbr
  exact absurd hbr (by decide)

end Http
