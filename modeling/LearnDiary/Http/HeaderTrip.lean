import LearnDiary.Http.Builder

/-!
# A request header, written and read (comm/http.cc)

A parser that gets a header and nothing behind it goes on with the body, of which it has no byte: the
length to append is then `ContentLength()` itself when that is negative, and its negation is not an
`int` for the least `int`.

* `empty_body`, `empty_body_wild`  the iteration over a body of which nothing has come;
* `builder_request`                what the parser knows when it gets there;
* `header_back_iff`                when the header comes back.
-/

namespace Http
open Loop

/-! ## nothing of the body -/

section
variable {o : Overload} {c : Core} {m : AutoBuffer}

theorem appendLen_empty {n : Int} (h1 : -2 ^ 31 ≤ n) (h2 : n < 2 ^ 31) :
    appendLen n 0 0 = if n = -2 ^ 31 then none else some (min n 0) := by
  have h0 : toInt32 ((0 : Nat) : Int) = 0 := toInt32_of_lt (n := 0) (by norm_num)
  unfold appendLen
  rw [Nat.add_zero, h0]
  by_cases hn : 0 ≤ n
  · have hmin : n ≠ -2 ^ 31 := by omega
    rw [if_pos hn, Int.min_eq_right hn, if_neg hmin]
    rfl
  · rw [if_neg hn, Int.sub_zero, Int.min_eq_left (by omega)]
    by_cases hmin : n = -2 ^ 31
    · rw [if_pos hmin, hmin]
      rfl
    · rw [if_neg hmin]
      exact if_pos ⟨by omega, h2⟩

/-- the length that is announced counts as delivered at once when it is negative -/
theorem toInt32_toSizeT {n : Int} (h1 : -2 ^ 31 ≤ n) (h2 : n < 0) :
    toInt32 ((0 + toSizeT n) % 2 ^ 64 : Nat) = n := by
  rw [toInt32_congr (n := n) (by unfold toSizeT; omega), toInt32_eq h1 (by omega)]

/-- **A body of which nothing has come**: the call returns, with the line and the fields it has. -/
theorem empty_body (hst : c.recvstatus_ = .kBody) (hr : c.bodyreceiver_ = some {}) (hm : m.length_ = 0)
    (h : c.headfields_.isTransferEncodingChunked = true ∨ c.headfields_.contentLength ≠ -2 ^ 31) :
    ∃ st r m', turnOn o (c, m) = .ret ({ c with recvstatus_ := st, bodyreceiver_ := r }, m') := by
  have hidle : ∀ (r : Option BodyReceiver) (m' : AutoBuffer), m'.length_ = 0 →
      idle { c with bodyreceiver_ := r } m' =
        .ret ({ c with recvstatus_ := c.recvstatus_, bodyreceiver_ := r }, m') := by
    intro r m' hm'
    unfold idle
    rw [if_pos hm']
  rw [turnOn_body o m hst]
  cases hc : c.headfields_.isTransferEncodingChunked with
  | true =>
    have hwait : chunkAct m (o.guard m.length_) = .wait := by
      have hnil : m.data = [] := List.length_eq_zero_iff.mp (m.data_length.trans hm)
      unfold chunkAct
      rw [search_eq crlf_ne (by omega), hnil]
      rfl
    rw [bodyTurn_chunked hr hc, hwait]
    exact ⟨c.recvstatus_, c.bodyreceiver_, m, rfl⟩
  | false =>
    have hne := h.resolve_left (by rw [hc]; exact Bool.false_ne_true)
    obtain ⟨h1, h2⟩ := contentLength_range c.headfields_
    rw [bodyTurn_unchunked hr hc, hm, appendLen_empty h1 h2, if_neg hne]
    simp only
    split
    · exact ⟨_, _, _, rfl⟩
    · rename_i hother
      rcases Int.lt_or_le c.headfields_.contentLength 0 with hneg | hpos
      · refine absurd ?_ hother
        rw [Int.min_eq_left (by omega)]
        exact toInt32_toSizeT h1 hneg
      · rw [Int.min_eq_right hpos]
        refine ⟨_, _, _, hidle _ _ ?_⟩
        have hmove := AutoBuffer.move_length m 0
        rw [hm] at hmove
        exact hmove

/-- **The least `int` as length**: its negation overflows. -/
theorem empty_body_wild (hst : c.recvstatus_ = .kBody) (hr : c.bodyreceiver_ = some {})
    (hm : m.length_ = 0) (hc : c.headfields_.isTransferEncodingChunked = false)
    (hn : c.headfields_.contentLength = -2 ^ 31) : turnOn o (c, m) = .wild := by
  have hnone : appendLen c.headfields_.contentLength 0 0 = none := by
    rw [hn, appendLen_empty (Int.le_refl _) (by norm_num), if_pos rfl]
  rw [turnOn_body o m hst, bodyTurn_unchunked hr hc, hm, hnone]

end

/-! ## the header -/

structure HasRequest (b : Builder) (c : Core) : Prop where
  mode : c.csmode_ = .kRequest
  line : c.requestline_ = b.requestline_
  fields : c.headfields_ = b.headfields_

/-- `HeaderToBuffer` writes the header, and a fresh parser returns from either `Recv` with the request -/
structure HeaderBack (b : Builder) (_header : AutoBuffer) : Prop where
  written : (b.headerToBuffer _header).1 = true
  recv : ∃ q, Recv {} (b.headerToBuffer _header).2.data q ∧ HasRequest b q.toCore
  recvBuffer : ∃ s, RecvBuffer {} (b.headerToBuffer _header).2 s ∧ HasRequest b s.1.toCore

section
variable {b : Builder}

theorem builder_request (h : b.Valid) (hmode : b.csmode_ = .kRequest) :
    HasRequest b (b.message []).bodyCore := by
  obtain ⟨hcs, hfields, -⟩ := builder_core h []
  refine ⟨hcs.trans hmode, ?_, hfields⟩
  have hvalid := h.line
  rw [hmode] at hvalid
  obtain ⟨hline, hfirst⟩ := builder_firstline h []
  have htext : b.requestline_.toString = (b.message []).firstline ++ crlf := by
    rw [← hline]
    unfold Builder.firstline
    rw [hmode]
  rw [hmode] at hfirst
  have hparse : (parseFirstLine {} ((b.message []).firstline ++ crlf)).2.requestline_ =
      b.requestline_ := by
    unfold parseFirstLine
    rw [if_neg (by rw [hfirst.mode]; decide), ← htext, RequestLine.fromString_toString hvalid]
  exact hparse

theorem header_reaches (o : Overload) (h : b.Valid) (hf : b.headfields_.headers_.entries ≠ [])
    (hlen : outputLength b [] < 2 ^ 31) {x : AutoBuffer} (hx : x.data = (b.message []).text) :
    ∃ m, Reaches (turnOn o) ({}, x) ((b.message []).bodyCore, m) ∧ m.length_ = 0 := by
  have hfields : (b.message []).fields ≠ [] := by
    unfold Builder.message
    simpa using hf
  obtain ⟨m, hm, hd⟩ := message_reaches o (builder_head h []) hfields hx
    (by rw [← x.data_length, hx, text_length h []]; exact hlen)
  refine ⟨m, hm, ?_⟩
  rw [← m.data_length, hd]
  rfl

theorem header_returns (o : Overload) (h : b.Valid) (hmode : b.csmode_ = .kRequest)
    (hf : b.headfields_.headers_.entries ≠ []) (hlen : outputLength b [] < 2 ^ 31)
    (hcond : b.headfields_.isTransferEncodingChunked = true ∨ b.headfields_.contentLength ≠ -2 ^ 31)
    {x : AutoBuffer} (hx : x.data = (b.message []).text) :
    ∃ t, Returns (turnOn o) ({}, x) t ∧ HasRequest b t.1 := by
  obtain ⟨m, hm, h0⟩ := header_reaches o h hf hlen hx
  obtain ⟨hcs, hline, hfields⟩ := builder_request h hmode
  obtain ⟨st, r, m', hturn⟩ := empty_body (o := o) (c := (b.message []).bodyCore) rfl
    (lineCore_keeps _).1 h0 (by rw [hfields]; exact hcond)
  exact ⟨_, Returns.of_reaches hm (.ret hturn), hcs, hline, hfields⟩

theorem header_wild (o : Overload) (h : b.Valid) (hf : b.headfields_.headers_.entries ≠ [])
    (hlen : outputLength b [] < 2 ^ 31) (hc : b.headfields_.isTransferEncodingChunked = false)
    (hn : b.headfields_.contentLength = -2 ^ 31) {x : AutoBuffer} (hx : x.data = (b.message []).text)
    (t : Mem) : ¬ Returns (turnOn o) ({}, x) t := by
  intro hret
  obtain ⟨m, hm, h0⟩ := header_reaches o h hf hlen hx
  have hfields := builder_headfields h []
  have hturn := empty_body_wild (o := o) (c := (b.message []).bodyCore) rfl (lineCore_keeps _).1 h0
    (by rw [show (b.message []).bodyCore.headfields_ = _ from hfields]; exact hc)
    (by rw [show (b.message []).bodyCore.headfields_ = _ from hfields]; exact hn)
  cases hret.from_reached hm with
  | ret e => rw [hturn] at e; cases e
  | again e => rw [hturn] at e; cases e

theorem header_data (h : b.Valid) {_header : AutoBuffer} (h0 : _header.length_ = 0)
    (hf : b.headfields_.headers_.entries ≠ []) :
    (b.headerToBuffer _header).2.data = (b.message []).text := by
  have htext := (headerToBuffer_text h h0 hf []).2.1
  rwa [List.append_nil] at htext

theorem header_not_back (h : b.Valid) {_header : AutoBuffer} (h0 : _header.length_ = 0)
    (hf : b.headfields_.headers_.entries ≠ []) (hlen : outputLength b [] < 2 ^ 31)
    (hc : b.headfields_.isTransferEncodingChunked = false) (hn : b.headfields_.contentLength = -2 ^ 31) :
    ¬ HeaderBack b _header := by
  intro hback
  obtain ⟨q, hq, -⟩ := hback.recv
  rw [header_data h h0 hf] at hq
  exact header_wild rawOverload h hf hlen hc hn (AutoBuffer.write_data _ _ rfl) _
    (recv_mem (p := {}) (text_ne_nil _) hq)

end

/-- **A request header comes back** through either `Recv` exactly when the body is chunked or the
announced length is not the least `int`. -/
theorem header_back_iff {b : Builder} {_header : AutoBuffer} (h : b.Valid) (hmode : b.csmode_ = .kRequest)
    (hf : b.headfields_.headers_.entries ≠ []) (h0 : _header.length_ = 0)
    (hlen : outputLength b [] < 2 ^ 31) :
    HeaderBack b _header ↔
      b.headfields_.isTransferEncodingChunked = true ∨ b.headfields_.contentLength ≠ -2 ^ 31 := by
  constructor
  · intro hback
    by_contra hcond
    obtain ⟨hc, hn⟩ := not_or.mp hcond
    exact header_not_back h h0 hf hlen (Bool.eq_false_iff.mpr hc) (not_not.mp hn) hback
  · intro hcond
    have hdata := header_data h h0 hf
    have hne : (b.headerToBuffer _header).2.length_ ≠ 0 := by
      rw [← AutoBuffer.data_length, hdata]
      exact fun e => text_ne_nil _ (List.length_eq_zero_iff.mp e)
    obtain ⟨t, ht, hreq⟩ := header_returns rawOverload h hmode hf hlen hcond
      (AutoBuffer.write_data .new (b.message []).text rfl)
    obtain ⟨q, hq, rfl⟩ := mem_recv (p := {}) (text_ne_nil _) ht
    obtain ⟨t', ht', hreq'⟩ := header_returns (bufferOverload 0) h hmode hf hlen hcond hdata
    obtain ⟨s, hs, rfl⟩ := mem_recvBuffer (p := {}) hne ht'
    exact ⟨(headerToBuffer_text h h0 hf []).1, ⟨q, by rw [hdata]; exact hq, hreq⟩, ⟨s, hs, hreq'⟩⟩

def getBuilder (name value : Bytes) : Builder where
  csmode_ := .kRequest
  requestline_ := ⟨.kGet, ascii "/", .kVersion_1_1⟩
  headfields_ := HeaderFields.headerFiled {} name value

theorem header_back_iff_host : HeaderBack (getBuilder (ascii "Host") (ascii "a")) .new :=
  (header_back_iff (b := getBuilder (ascii "Host") (ascii "a"))
    ⟨⟨by decide, by decide +kernel, by decide⟩, by decide +kernel⟩ rfl (by decide +kernel) rfl
    (by decide +kernel)).mpr (Or.inr (by decide +kernel))

/-- **An announced length of 2^31** is the least `int`. -/
theorem header_not_back_length : (getBuilder (ascii "Content-Length") (ascii "2147483648")).Valid ∧
    ¬ HeaderBack (getBuilder (ascii "Content-Length") (ascii "2147483648")) .new := by
  have hvalid : (getBuilder (ascii "Content-Length") (ascii "2147483648")).Valid :=
    ⟨⟨by decide, by decide +kernel, by decide⟩, by decide +kernel⟩
  exact ⟨hvalid, header_not_back hvalid rfl (by decide +kernel) (by decide +kernel) (by decide +kernel)
    (by decide +kernel)⟩

end Http
