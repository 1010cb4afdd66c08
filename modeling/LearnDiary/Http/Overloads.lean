import LearnDiary.Http.Message

/-!
# The two overloads on a complete message (comm/http.cc)

`Recv(AutoBuffer&)` is a copy of `Recv(const void*, size_t)` that misses two things: the blank line
right behind the first line, and that the last chunk has to be compared with the length of the
buffer it stands in.  So the two agree on messages with header fields and a body of fixed length,
and on no others.

* `overloads_step`       the two loops go in step on a message of fixed length, of any size;
* `chunked_never_ends`   `Recv(AutoBuffer&)` does not end a chunked body;
* `overloads_agree`      the result.
-/

namespace Http
open Loop
open HeaderFields (HeaderLine lines)

inductive Message.Kind where
  | fixed | chunked | headless
deriving DecidableEq

/-- a message with the body its header announces -/
structure Message.Complete (m : Message) (k : Message.Kind) : Prop extends m.Head where
  body : match k with
    | .fixed => m.fields ≠ [] ∧ m.headfields.isTransferEncodingChunked = false ∧
        m.headfields.contentLength = m.body.length
    | .chunked => m.fields ≠ [] ∧ m.headfields.isTransferEncodingChunked = true ∧
        ∃ c : ChunkedBody, c.Valid ∧ m.body = c.text
    | .headless => m.fields = [] ∧ m.body = []

/-- the two calls leave status, lines, fields and receiver alike -/
def Agree (q : Parser) (s : Parser × AutoBuffer) : Prop := q.toCore = s.1.toCore

section
variable {m : Message} {k : Message.Kind}

/-! ## messages of fixed length -/

/-- how far the parsing has come, the same in both overloads -/
inductive Stage (m : Message) : Core → Bytes → Prop where
  | line : Stage m {} m.text
  | fields : Stage m m.lineCore (lines m.fields ++ (crlf ++ m.body))
  | body : Stage m m.bodyCore m.body

/-- two parsers that have come equally far -/
structure InStep (m : Message) (s s' : Mem) : Prop where
  core : s.1 = s'.1
  data : s.2.data = s'.2.data
  stage : Stage m s.1 s.2.data

theorem message_fixed (o : Overload) (hm : m.Complete .fixed) {b : AutoBuffer}
    (hd : b.data = m.body) : turnOn o (m.bodyCore, b) = .ret ({ m.bodyCore with
      recvstatus_ := .kEnd
      bodyreceiver_ := some (BodyReceiver.appendData {} m.body m.body.length) },
      b.move (-(b.length_ : Int))) := by
  obtain ⟨-, hc, hl⟩ := hm.body
  have hlen : b.length_ = m.body.length := by rw [← b.data_length, hd]
  rw [turnOn_fixed o (c := m.bodyCore) (r := {}) rfl hc (lineCore_keeps m).1 rfl
    (by rw [hlen]; exact hl), hd, hlen]

theorem rel_search {R Q : Mem → Mem → Prop} {b b' : AutoBuffer} {pat : Bytes} {x y x' y' : Mem}
    (hp : pat ≠ []) (hd : b.data = b'.data) (hQ : Q x x') (hR : R y y') :
    Turn.Rel R Q
      (match search b pat with
        | .wild => .wild
        | .null => .ret x
        | .found _ => .again y)
      (match search b' pat with
        | .wild => .wild
        | .null => .ret x'
        | .found _ => .again y') := by
  have hdet := search_det hp hd
  cases e : search b pat with
  | wild => trivial
  | null =>
    cases e' : search b' pat with
    | wild => trivial
    | null => exact hQ
    | found pos => simp [e, e'] at hdet
  | found pos =>
    cases e' : search b' pat with
    | wild => trivial
    | null => simp [e, e'] at hdet
    | found pos' => exact hR

/-- **The overloads go in step** on a message of fixed length, whatever its size. -/
theorem overloads_step (o o' : Overload) (hm : m.Complete .fixed) (s s' : Mem)
    (h : InStep m s s') :
    Turn.Rel (InStep m) (fun t t' => t.1 = t'.1) (turnOn o s) (turnOn o' s') := by
  obtain ⟨c, b⟩ := s
  obtain ⟨c', b'⟩ := s'
  obtain ⟨rfl, hd, hs⟩ := h
  have hne := hm.body.1
  have hlen : b.length_ = b'.length_ := by rw [← b.data_length, ← b'.data_length, hd]
  replace hd : b.data = b'.data := hd
  replace hs : Stage m c b.data := hs
  generalize hx : b.data = x at hs hd
  cases hs with
  | line =>
    rw [message_line o hm.toHead hne hx, message_line o' hm.toHead hne hd.symm, hlen]
    refine rel_search crlf_ne (hx.trans hd) rfl ⟨rfl, (line_moved hx).trans (line_moved hd.symm).symm, ?_⟩
    rw [line_moved hx]
    exact .fields
  | fields =>
    rw [message_fields o hm.toHead hne hx, message_fields o' hm.toHead hne hd.symm, hlen]
    refine rel_search crlf2_ne (hx.trans hd) rfl
      ⟨rfl, (fields_moved hx).trans (fields_moved hd.symm).symm, ?_⟩
    rw [fields_moved hx]
    exact .body
  | body =>
    rw [message_fixed o hm hx, message_fixed o' hm hd.symm]
    rfl

/-! ## chunked messages -/

theorem chunkAct_zero_guard (b : AutoBuffer) (k : Nat) : chunkAct b 0 ≠ .last k := by
  unfold chunkAct
  cases e : search b crlf with
  | wild => simp
  | null => simp
  | found pos =>
    have hlt := search_found_lt crlf_ne e
    have h2 : crlf.length = 2 := rfl
    simp only
    split
    · split
      · simp
      · split
        · simp
        · split <;> simp
    · rw [if_pos (by omega)]
      simp

/-- **`Recv(AutoBuffer&)` does not end a chunked body.** -/
theorem chunked_never_ends {c : Core} {b : AutoBuffer} {r : BodyReceiver} {t : Mem}
    (hst : c.recvstatus_ = .kBody) (hc : c.headfields_.isTransferEncodingChunked = true)
    (hr : c.bodyreceiver_ = some r) (h : Returns (turnOn (bufferOverload 0)) (c, b) t) :
    t.1.recvstatus_ ≠ .kEnd := by
  have step : ∀ s t : Mem, (s.1.recvstatus_ = .kBody ∨ s.1.recvstatus_ = .kBodyError) ∧
      s.1.headfields_.isTransferEncodingChunked = true ∧ s.1.bodyreceiver_ ≠ none →
      (turnOn (bufferOverload 0) s).Goes t →
      (t.1.recvstatus_ = .kBody ∨ t.1.recvstatus_ = .kBodyError) ∧
      t.1.headfields_.isTransferEncodingChunked = true ∧ t.1.bodyreceiver_ ≠ none := by
    rintro ⟨c, b⟩ t ⟨hst, hc, hr⟩ h
    rcases hst with hst | hst
    · obtain ⟨r, hr⟩ := Option.ne_none_iff_exists'.mp hr
      rw [turnOn_body _ b hst] at h
      cases bodyTurn_goes hr h with
      | stay st _ _ hst' =>
        refine ⟨?_, hc, by simp [show c.bodyreceiver_ = some r from hr]⟩
        rcases hst' with rfl | rfl
        · exact Or.inl hst
        · exact Or.inr rfl
      | append => exact ⟨Or.inl hst, hc, by simp⟩
      | last _ ha => exact absurd ha (chunkAct_zero_guard b _)
      | fixed _ hc' => exact absurd (hc.symm.trans hc') (by decide)
    · unfold turnOn at h
      replace hst : c.recvstatus_ = .kBodyError := hst
      simp only [hst] at h
      rw [h.of_again]
      exact ⟨Or.inr hst, hc, hr⟩
  obtain ⟨u, hu, e⟩ := h.last
  have hP := hu.keep (fun s t hs e => step s t hs (Or.inl e))
    ⟨Or.inl hst, hc, by rw [show (c, b).1.bodyreceiver_ = some r from hr]; simp⟩
  rcases (step u t hP (Or.inr e)).1 with h | h
  · rw [h]; decide
  · rw [h]; decide

/-! ## messages without header fields -/

theorem headless_text (hm : m.Complete .headless) : m.text = m.firstline ++ (crlf ++ crlf) := by
  obtain ⟨h1, h2⟩ := hm.body
  unfold Message.text
  rw [h1, h2]
  rfl

theorem headless_line (o : Overload) (hm : m.Complete .headless) {b : AutoBuffer}
    (hd : b.data = m.text) (hlen : b.length_ < 2 ^ 31) :
    turnOn o (({} : Core), b) = .again
      ({ m.lineCore with recvstatus_ := (afterLine o b m.firstline.length).1 },
        b.move (-((afterLine o b m.firstline.length).2 : Int))) := by
  rw [headless_text hm] at hd
  rw [turnOn_line o rfl hm.line hd hm.parse, search_eq crlf_ne hlen, hd, findC_crlf_line hm.line]
  rfl

/-- `Recv(const void*, size_t)` takes the blank line for the end of the header -/
theorem headless_ends (hm : m.Complete .headless) {b : AutoBuffer} (hd : b.data = m.text)
    (hlen : b.length_ < 2 ^ 31) {t : Mem} (h : Returns (turnOn rawOverload) ({}, b) t) :
    t.1.recvstatus_ = .kEnd := by
  have hline := headless_line rawOverload hm hd hlen
  rw [headless_text hm] at hd
  have hcr : (13 : UInt8) ∉ m.firstline := fun h => (hm.line 13 h).1 rfl
  have hfind : findC crlf2 b.data = some m.firstline.length := by
    rw [hd]
    refine Find.findUpTo_line notNul hcr (fun a ha => ?_) []
    · rcases List.mem_append.mp ha with ha | ha
      · exact notNul_of_lineByte (hm.line a ha)
      · exact crlf2_notNul a ha
  have hafter : afterLine rawOverload b m.firstline.length = (.kBody, m.firstline.length + 4) := by
    unfold afterLine
    rw [if_pos ⟨rfl, by rw [search_eq crlf2_ne hlen, hfind]; rfl⟩]
  rw [hafter] at hline
  have hzero : (b.move (-((m.firstline.length + 4 : Nat) : Int))).length_ = 0 := by
    rw [AutoBuffer.move_length, ← b.data_length, hd]
    simp [crlf]
  have hend := turnOn_fixed rawOverload (c := { m.lineCore with recvstatus_ := .kBody }) (r := {})
    (b := b.move (-((m.firstline.length + 4 : Nat) : Int))) rfl
    (by rw [show (_ : Core).headfields_ = {} from (lineCore_keeps m).2]; decide)
    (lineCore_keeps m).1 rfl
    (by rw [show (_ : Core).headfields_ = {} from (lineCore_keeps m).2, hzero]; decide)
  rw [h.det (.again hline (.ret hend))]

/-- `Recv(AutoBuffer&)` looks for header fields behind it -/
theorem headless_waits (n : Nat) (hm : m.Complete .headless) {b : AutoBuffer}
    (hd : b.data = m.text) (hlen : b.length_ < 2 ^ 31) {t : Mem}
    (h : Returns (turnOn (bufferOverload n)) ({}, b) t) : t.1.recvstatus_ = .kHeaderFields := by
  have hline := headless_line (bufferOverload n) hm hd hlen
  rw [headless_text hm] at hd
  have hafter : afterLine (bufferOverload n) b m.firstline.length
      = (.kHeaderFields, m.firstline.length + 2) := by
    unfold afterLine
    rw [if_neg (fun h => Bool.false_ne_true h.1)]
  rw [hafter] at hline
  generalize hb1 : b.move (-((m.firstline.length + 2 : Nat) : Int)) = b1 at hline
  have hd1 : b1.data = crlf := by
    rw [← hb1, AutoBuffer.move_data, hd, ← List.drop_drop, List.drop_left]
    rfl
  have hlen1 : b1.length_ = 2 := by rw [← b1.data_length, hd1]; rfl
  have hnull : search b1 crlf2 = .null := by
    rw [search_eq crlf2_ne (by omega), hd1]
    decide
  have hwait : turnOn (bufferOverload n) (m.lineCore, b1) = .ret (m.lineCore, b1) := by
    unfold turnOn headerFields
    simp only [show m.lineCore.recvstatus_ = .kHeaderFields from rfl, hnull]
    rw [if_neg (by omega)]
  rw [h.det (.again hline (.ret hwait))]
  rfl

/-! ## the result -/

theorem Agree.status {q : Parser} {s : Parser × AutoBuffer} (h : Agree q s) :
    q.recvstatus_ = s.1.recvstatus_ := congrArg Core.recvstatus_ h

/-- **Where the overloads agree.**  A complete message is handed whole to fresh parsers.  With
header fields and a body of fixed length the two calls agree whenever both return, whatever its
size; below `2^31` bytes they return and agree on these messages and on no others. -/
theorem overloads_agree {b : AutoBuffer} (hm : m.Complete k) (hb : b.data = m.text) :
    (k = .fixed → ∀ q s, Recv {} m.text q → RecvBuffer {} b s → Agree q s) ∧
    (m.text.length < 2 ^ 31 →
      ((∃ q s, Recv {} m.text q ∧ RecvBuffer {} b s ∧ Agree q s) ↔ k = .fixed)) := by
  have hne := text_ne_nil m
  have hb0 : b.length_ ≠ 0 := by
    rw [← b.data_length, hb]
    exact fun e => hne (List.length_eq_zero_iff.mp e)
  have hw : (AutoBuffer.new.write m.text).data = m.text := AutoBuffer.write_data _ _ rfl
  have hagree : k = .fixed → ∀ q s, Recv {} m.text q → RecvBuffer {} b s → Agree q s := by
    rintro rfl q s hq hs
    have h0 : InStep m ({}, AutoBuffer.new.write m.text) ({}, b) :=
      ⟨rfl, hw.trans hb.symm, by rw [show (_ : AutoBuffer).data = m.text from hw]; exact .line⟩
    exact Returns.rel (overloads_step rawOverload (bufferOverload 0) hm) h0 (recv_mem (p := {}) hne hq)
      (recvBuffer_mem (p := {}) hb0 hs)
  refine ⟨hagree, fun hlen => ⟨?_, ?_⟩⟩
  · rintro ⟨q, s, hq, hs, ha⟩
    have hlen1 : (AutoBuffer.new.write m.text).length_ < 2 ^ 31 := by
      rw [← AutoBuffer.data_length, hw]
      exact hlen
    have hlen2 : b.length_ < 2 ^ 31 := by
      rw [← b.data_length, hb]
      exact hlen
    have h1 := recv_mem hne hq
    have h2 := recvBuffer_mem hb0 hs
    cases k with
    | fixed => rfl
    | chunked =>
      obtain ⟨hf, hc, ⟨l, last, trailer⟩, hv, hbody⟩ := hm.body
      obtain ⟨b1, hd1, hr1⟩ := message_body rawOverload hm.toHead hf hw hlen1 h1
      obtain ⟨b2, hd2, hr2⟩ := message_body (bufferOverload 0) hm.toHead hf hb hlen2 h2
      have hb1 : b1.length_ < 2 ^ 31 := by
        have h3 : m.body.length ≤ m.text.length := by
          simp only [Message.text, List.length_append]
          omega
        rw [← b1.data_length, hd1]
        omega
      have e1 : q.recvstatus_ = .kEnd :=
        chunked_ends (c := m.bodyCore) hv rfl hc (lineCore_keeps m).1 hb1 (hd1.trans hbody) hr1
      exact absurd (ha.status.symm.trans e1)
        (chunked_never_ends (c := m.bodyCore) rfl hc (lineCore_keeps m).1 hr2)
    | headless =>
      have e1 : q.recvstatus_ = .kEnd := headless_ends hm hw hlen1 h1
      have e2 : s.1.recvstatus_ = .kHeaderFields := headless_waits 0 hm hb hlen2 h2
      exact absurd (e2.symm.trans (ha.status.symm.trans e1)) (by decide)
  · rintro rfl
    have hret : ∀ (o : Overload) (x : AutoBuffer), x.data = m.text →
        ∃ t, Returns (turnOn o) ({}, x) t := by
      intro o x hx
      obtain ⟨b', hr, hd'⟩ := message_reaches o hm.toHead hm.body.1 hx
        (by rw [← x.data_length, hx]; exact hlen)
      exact ⟨_, Returns.of_reaches hr (.ret (message_fixed o hm hd'))⟩
    obtain ⟨t1, h1⟩ := hret rawOverload _ hw
    obtain ⟨t2, h2⟩ := hret (bufferOverload 0) _ hb
    obtain ⟨q, hq, -⟩ := mem_recv (p := {}) hne h1
    obtain ⟨s, hs, -⟩ := mem_recvBuffer (p := {}) hb0 h2
    exact ⟨q, s, hq, hs, hagree rfl q s hq hs⟩

end

theorem overloads_agree_abc : ∃ q s,
    Recv {} (ascii "HTTP/1.1 200 OK\r\nContent-Length: 3\r\n\r\nabc") q ∧
    RecvBuffer {} (AutoBuffer.new.write
      (ascii "HTTP/1.1 200 OK\r\nContent-Length: 3\r\n\r\nabc")) s ∧ Agree q s :=
  ((overloads_agree
    (m := ⟨ascii "HTTP/1.1 200 OK", [ascii "Content-Length: 3"], ascii "abc"⟩) (k := .fixed)
    (b := AutoBuffer.new.write (ascii "HTTP/1.1 200 OK\r\nContent-Length: 3\r\n\r\nabc"))
    ⟨⟨by decide +kernel, by decide +kernel, by decide +kernel⟩,
      by decide, by decide +kernel, by decide +kernel⟩ (by decide +kernel)).2 (by decide)).mpr rfl

/-- **A chunked message**: one overload ends it, the other waits for ever. -/
theorem overloads_differ : ∃ (m : Message) (b : AutoBuffer) (q : Parser) (s : Parser × AutoBuffer),
    m.Complete .chunked ∧ b.data = m.text ∧ Recv {} m.text q ∧ RecvBuffer {} b s ∧
    q.recvstatus_ = .kEnd ∧ s.1.recvstatus_ = .kBody := by
  obtain ⟨q, hq, hqs⟩ := recv_of_within (n := 9) (p := {})
    (d := ascii "HTTP/1.1 200 OK\r\nTransfer-Encoding: chunked\r\n\r\n3\r\nabc\r\n0\r\n\r\n")
    (f := fun q => q.recvstatus_ == .kEnd) (by decide +kernel)
  obtain ⟨s, hs, hss⟩ := recvBuffer_of_within (n := 9) (p := {})
    (b := AutoBuffer.new.write
      (ascii "HTTP/1.1 200 OK\r\nTransfer-Encoding: chunked\r\n\r\n3\r\nabc\r\n0\r\n\r\n"))
    (f := fun s => s.1.recvstatus_ == .kBody) (by decide +kernel)
  exact ⟨⟨ascii "HTTP/1.1 200 OK", [ascii "Transfer-Encoding: chunked"],
      ascii "3\r\nabc\r\n0\r\n\r\n"⟩, _, q, s,
    ⟨⟨by decide +kernel, by decide +kernel, by decide +kernel⟩, by decide, by decide +kernel,
      ⟨[(ascii "3", ascii "abc")], ascii "0", []⟩,
      ⟨by decide +kernel, by decide +kernel, by decide +kernel⟩, by decide⟩,
    by decide +kernel, hq, hs, by simpa using hqs, by simpa using hss⟩

end Http
