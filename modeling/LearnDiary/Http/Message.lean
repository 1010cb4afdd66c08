import LearnDiary.Http.Chunked

/-!
# A whole message in the buffer

What the iterations do when the first line, the header lines or the body stand complete in front
of the buffer, for any number of buffered bytes.

* `turnOn_line`, `turnOn_fields`   the line or the header is taken, unless the search for its end
  fails;
* `turnOn_fixed`                   a body of the announced length ends the message;
* `chunked_ends`                   a chunked body ends the message or the call does not return;
* `message_reaches`                below `2^31` bytes the iterations get to the body.
-/

namespace Http
open Loop
open HeaderFields (HeaderLine lines)

/-! ## searches -/

/-- with a length that is not negative as an `int` the search sees received bytes only -/
theorem search_nonneg {b : AutoBuffer} {pat : Bytes} (hp : pat ≠ []) (h : 0 ≤ toInt32 b.length_) :
    search b pat = Search.ofOption (findC pat (b.data.take (toInt32 b.length_).toNat)) := by
  have hle := toInt32_le b.length_
  have hlt := toInt32_lt b.length_
  have hL := b.length_le
  unfold search
  obtain ⟨n, hn⟩ : ∃ n : Nat, toInt32 b.length_ = n := ⟨_, (Int.toNat_of_nonneg h).symm⟩
  rw [hn, strnstr_eq _ _ hp n (by omega) (by omega), take_data b (by omega), Int.toNat_natCast]

theorem search_det {b b' : AutoBuffer} {pat : Bytes} (hp : pat ≠ []) (hd : b.data = b'.data)
    (h : search b pat ≠ .wild) (h' : search b' pat ≠ .wild) : search b pat = search b' pat := by
  have hlen : b.length_ = b'.length_ := by rw [← b.data_length, ← b'.data_length, hd]
  rcases lt_or_ge (toInt32 b.length_) 0 with hneg | hpos
  · have hnull : ∀ {x : AutoBuffer}, toInt32 x.length_ < 0 → search x pat ≠ .wild →
        search x pat = .null := by
      intro x hx hw
      cases e : search x pat with
      | wild => exact absurd e hw
      | null => rfl
      | found pos => exact absurd e (strnstr_neg hp hx pos)
    rw [hnull hneg h, hnull (hlen ▸ hneg) h']
  · rw [search_nonneg hp hpos, search_nonneg hp (hlen ▸ hpos), hd, hlen]

/-! ## the first line -/

theorem afterLine_fields {o : Overload} {b : AutoBuffer} {line rest : Bytes} (hd : b.data = line ++ (crlf ++ rest))
    (h13 : rest.head? ≠ some 13) : afterLine o b line.length = (.kHeaderFields, line.length + 2) := by
  unfold afterLine
  rw [if_neg]
  rintro ⟨-, hs⟩
  have h1 := Find.findUpTo_isPrefix notNul (search_found crlf2_ne hs)
  rw [hd, List.drop_left] at h1
  have h2 : crlf <+: rest := (List.prefix_append_right_inj crlf).mp h1
  obtain ⟨u, rfl⟩ := h2
  exact h13 rfl

/-- **A complete first line in front of the buffer.** -/
theorem turnOn_line (o : Overload) {c c' : Core} {b : AutoBuffer} {line rest : Bytes}
    (hst : c.recvstatus_ = .kStart) (hl : ∀ x ∈ line, LineByte x)
    (hd : b.data = line ++ (crlf ++ rest)) (hp : parseFirstLine c (line ++ crlf) = (true, c')) :
    turnOn o (c, b) = match search b crlf with
      | .wild => .wild
      | .null => .ret ({ c with recvstatus_ := if 8 * 1024 < b.length_ then .kFirstLineError
          else .kFirstLine }, b)
      | .found _ => .again ({ c' with recvstatus_ := (afterLine o b line.length).1 },
          b.move (-((afterLine o b line.length).2 : Int))) := by
  unfold turnOn firstLine
  simp only [hst]
  cases e : search b crlf with
  | wild => rfl
  | null =>
    by_cases hlong : 8 * 1024 < b.length_
    · simp only [if_pos hlong]
    · simp only [if_neg hlong]
  | found pos =>
    have hle : pos + 2 ≤ b.length_ := search_found_le crlf_ne e
    obtain rfl := search_line (t := []) hl (by rw [List.append_nil]; exact hd) e
    have htake : b.parray_.take (line.length + 2) = line ++ crlf := by
      have h1 := take_line
        (show b.data ++ [] = (line ++ crlf) ++ rest by rw [List.append_nil, hd, List.append_assoc])
        (by rw [List.length_append]; exact hle)
      rwa [List.length_append] at h1
    simp only [htake, hp]

/-! ## the header lines -/

/-- **Complete header lines in front of the buffer.** -/
theorem turnOn_fields (o : Overload) {c : Core} {b : AutoBuffer} {ls : List Bytes} {body : Bytes}
    (hst : c.recvstatus_ = .kHeaderFields) (hl : ∀ t ∈ ls, HeaderLine t) (hne : ls ≠ [])
    (hd : b.data = lines ls ++ (crlf ++ body)) :
    turnOn o (c, b) = match search b crlf2 with
      | .wild => .wild
      | .null => .ret ({ c with recvstatus_ := if 128 * 1024 < b.length_ then .kHeaderFieldsError
          else .kHeaderFields }, b)
      | .found _ => .again ({ c with
          headfields_ := (HeaderFields.parserHeaders (lines ls ++ crlf) c.headfields_).2
          recvstatus_ := .kBody }, b.move (-(((lines ls).length + 2 : Nat) : Int))) := by
  unfold turnOn headerFields
  simp only [hst]
  cases e : search b crlf2 with
  | wild => rfl
  | null =>
    by_cases hlong : 128 * 1024 < b.length_
    · simp only [if_pos hlong]
    · simp only [if_neg hlong, ← hst]
  | found pos =>
    have hle : pos + 4 ≤ b.length_ := search_found_le crlf2_ne e
    obtain ⟨k, hk, hk2⟩ := HeaderFields.findC_crlf2_lines hl hne body
    have hpos : findC crlf2 b.data = some pos := search_found crlf2_ne e
    rw [hd, hk] at hpos
    cases hpos
    have htake : b.parray_.take (pos + 4) = lines ls ++ crlf := by
      have hlen : (lines ls ++ crlf).length = pos + 4 := by
        rw [List.length_append, ← hk2]
        rfl
      have h1 := take_line (show b.data ++ [] = (lines ls ++ crlf) ++ body by
        rw [List.append_nil, hd, List.append_assoc]) (by omega)
      rwa [hlen] at h1
    simp only [htake, HeaderFields.parserHeaders, ← hk2]

/-! ## the body -/

/-- **A body of the announced length**, nothing of it delivered before. -/
theorem turnOn_fixed (o : Overload) {c : Core} {b : AutoBuffer} {r : BodyReceiver}
    (hst : c.recvstatus_ = .kBody) (hc : c.headfields_.isTransferEncodingChunked = false)
    (hr : c.bodyreceiver_ = some r) (h0 : r.total_length_ = 0)
    (hl : c.headfields_.contentLength = b.length_) :
    turnOn o (c, b) = .ret ({ c with
      recvstatus_ := .kEnd
      bodyreceiver_ := some (r.appendData b.data b.length_) }, b.move (-(b.length_ : Int))) := by
  have hlt := (contentLength_range c.headfields_).2
  rw [hl] at hlt
  have happ : appendLen c.headfields_.contentLength b.length_ r.total_length_ = some (b.length_ : Int) := by
    unfold appendLen
    rw [h0, hl, Nat.add_zero, toInt32_of_lt (by omega), if_pos (Int.le_refl _)]
    simp only
    rw [if_pos (by omega)]
  have hdata : r.appendData b.parray_ b.length_ = r.appendData b.data b.length_ := by
    unfold BodyReceiver.appendData
    rw [take_data b (Nat.le_refl _)]
  have htot : (r.appendData b.data b.length_).total_length_ = b.length_ := by
    show (r.total_length_ + b.length_) % 2 ^ 64 = b.length_
    rw [h0]
    omega
  rw [turnOn_body o b hst, bodyTurn_unchunked hr hc, happ]
  simp only
  rw [toSizeT_of_lt (by omega), hdata, if_pos (by rw [htot, toInt32_of_lt (by omega), hl])]

/-- the text of the chunks (size line and data each), then `rest` -/
def chunkText : List (Bytes × Bytes) → Bytes → Bytes
  | [], rest => rest
  | x :: l, rest => x.1 ++ (crlf ++ (x.2 ++ (crlf ++ chunkText l rest)))

/-- a chunked body: the chunks, the size line of the last chunk, the trailer lines -/
structure ChunkedBody where
  chunks : List (Bytes × Bytes)
  last : Bytes
  trailer : List Bytes

def ChunkedBody.text (m : ChunkedBody) : Bytes :=
  chunkText m.chunks (m.last ++ (crlf ++ (lines m.trailer ++ crlf)))

structure ChunkedBody.Valid (m : ChunkedBody) : Prop where
  chunks : ∀ x ∈ m.chunks, (∀ c ∈ x.1, LineByte c) ∧ chunkSizeOf x.1 = x.2.length ∧ x.2 ≠ []
  last : (∀ c ∈ m.last, LineByte c) ∧ chunkSizeOf m.last = 0
  trailer : ∀ t ∈ m.trailer, HeaderLine t

theorem chunkText_pos (l : List (Bytes × Bytes)) (rest : Bytes) (h : 0 < rest.length) :
    0 < (chunkText l rest).length := by
  cases l with
  | nil => exact h
  | cons x l =>
    simp only [chunkText, List.length_append]
    have : crlf.length = 2 := rfl
    omega

theorem findC_crlf_lines {ls : List Bytes} (hl : ∀ t ∈ ls, HeaderLine t) :
    ∃ k, findC crlf (lines ls ++ crlf) = some k := by
  cases ls with
  | nil => exact ⟨0, by decide⟩
  | cons t ls =>
    refine ⟨t.length, ?_⟩
    rw [HeaderFields.lines_cons, List.append_assoc, List.append_assoc]
    exact findC_crlf_line (hl t List.mem_cons_self).2 _

theorem idle_end {o : Overload} {c : Core} {b : AutoBuffer} {s t : Mem}
    (hst : c.recvstatus_ = .kEnd) (hs : turnOn o s = idle c b) (h : Returns (turnOn o) s t) :
    t.1.recvstatus_ = .kEnd := by
  have hend : turnOn o (c, b) = .ret (c, b) := by
    unfold turnOn
    simp only [hst]
  have hr : Returns (turnOn o) s (c, b) := by
    unfold idle at hs
    split at hs
    · exact .ret hs
    · exact .again hs (.ret hend)
  rw [h.det hr]
  exact hst

/-- **A chunked body** of fewer than `2^31` bytes ends the message when the call returns: the
search for the trailer begins behind the last size line and may leave the block. -/
theorem chunked_ends {l : List (Bytes × Bytes)} {last : Bytes} {trailer : List Bytes}
    (hm : (ChunkedBody.mk l last trailer).Valid) {c : Core} {b : AutoBuffer} {r : BodyReceiver}
    (hst : c.recvstatus_ = .kBody) (hc : c.headfields_.isTransferEncodingChunked = true)
    (hr : c.bodyreceiver_ = some r) (hlen : b.length_ < 2 ^ 31)
    (hd : b.data = (ChunkedBody.mk l last trailer).text) {t : Mem}
    (h : Returns (turnOn rawOverload) (c, b) t) : t.1.recvstatus_ = .kEnd := by
  have h2 : crlf.length = 2 := rfl
  induction l generalizing c b r with
  | nil =>
    have hturn := (turnOn_body rawOverload b hst).trans (bodyTurn_chunked hr hc)
    have hL := b.data_length
    obtain ⟨hl, hs⟩ := hm.last
    replace hd : b.data = last ++ (crlf ++ (lines trailer ++ crlf)) := hd
    rw [hd] at hL
    simp only [List.length_append] at hL
    rw [chunkAct_zero (t := []) (g := rawOverload.guard b.length_) hlen hl hs
      (by rw [List.append_nil]; exact hd),
      if_neg (by show ¬ (b.length_ < last.length + 2 ∨ b.length_ < last.length + 4); omega)] at hturn
    cases e : strnstr (b.parray_.drop (last.length + 2)) crlf (toInt32 b.length_) with
    | wild =>
      simp only [e] at hturn
      cases h with
      | ret h => rw [hturn] at h; cases h
      | again h => rw [hturn] at h; cases h
    | null =>
      -- a line end stands in the received part behind the size line
      obtain ⟨k, hk⟩ := findC_crlf_lines hm.trailer
      have hdrop : b.data.drop (last.length + 2) = lines trailer ++ crlf := by
        rw [hd, ← List.drop_drop, List.drop_left]
        rfl
      have hpre : lines trailer ++ crlf <+: (b.parray_.drop (last.length + 2)).take b.length_ := by
        rw [← hdrop, AutoBuffer.data, List.drop_take]
        exact List.take_prefix_take_left (by omega)
      obtain ⟨u, hu⟩ := hpre
      have hfind : findC crlf ((b.parray_.drop (last.length + 2)).take b.length_) = some k := by
        rw [← hu]
        exact Find.findUpTo_append notNul u hk
      rw [toInt32_of_lt hlen, strnstr_of_ne_wild crlf_ne hlen
        (by rw [e]; exact Search.noConfusion), hfind] at e
      cases e
    | found k =>
      simp only [e] at hturn
      exact idle_end rfl hturn h
  | cons x l ih =>
    have hturn := (turnOn_body rawOverload b hst).trans (bodyTurn_chunked hr hc)
    have hL := b.data_length
    obtain ⟨hl, hs, hne⟩ := hm.chunks x List.mem_cons_self
    have hm' : (ChunkedBody.mk l last trailer).Valid :=
      ⟨fun y hy => hm.chunks y (List.mem_cons_of_mem _ hy), hm.last, hm.trailer⟩
    generalize hrest : chunkText l (last ++ (crlf ++ (lines trailer ++ crlf))) = rest
    replace hd : b.data = x.1 ++ (crlf ++ (x.2 ++ (crlf ++ rest))) := by rw [hd, ← hrest]; rfl
    have hlong := congrArg List.length hd
    simp only [List.length_append, hL] at hlong
    rw [chunkAct_chunk (t := []) (rawOverload.guard b.length_) hl hs hne (by omega)
      (by rw [List.append_nil]; exact hd),
      search_line_found (t := []) hl (by rw [List.append_nil]; exact hd) hlen (by omega)] at hturn
    simp only at hturn
    rw [if_neg (by omega)] at hturn
    have hdata : (b.move (-((x.1.length + x.2.length + 4 : Nat) : Int))).data = rest := by
      have hpart : (x.1 ++ (crlf ++ (x.2 ++ crlf))).length = x.1.length + x.2.length + 4 := by
        simp only [List.length_append]
        omega
      rw [AutoBuffer.move_data, ← hpart,
        show b.data = (x.1 ++ (crlf ++ (x.2 ++ crlf))) ++ rest by rw [hd]; simp, List.drop_left]
    have hpos := chunkText_pos l (last ++ (crlf ++ (lines trailer ++ crlf))) (by simp [crlf])
    rw [hrest] at hpos
    simp only [idle] at hturn
    rw [if_neg (by rw [AutoBuffer.move_length]; omega)] at hturn
    cases h with
    | ret h => rw [hturn] at h; cases h
    | again h h' =>
      rw [hturn] at h
      cases h
      refine ih hm' ?_ ?_ rfl ?_ (hdata.trans hrest.symm) h'
      · exact hst
      · exact hc
      · rw [AutoBuffer.move_length]
        omega

/-! ## messages -/

/-- first line, header lines and body -/
structure Message where
  firstline : Bytes
  fields : List Bytes
  body : Bytes

namespace Message

def text (m : Message) : Bytes :=
  m.firstline ++ (crlf ++ (lines m.fields ++ (crlf ++ m.body)))

def headfields (m : Message) : HeaderFields :=
  (HeaderFields.parserHeaders (lines m.fields ++ crlf) {}).2

/-- a first line the parser accepts and header lines -/
structure Head (m : Message) : Prop where
  line : ∀ c ∈ m.firstline, LineByte c
  accepted : (parseFirstLine {} (m.firstline ++ crlf)).1 = true
  fields : ∀ t ∈ m.fields, HeaderLine t

def lineCore (m : Message) : Core :=
  { (parseFirstLine {} (m.firstline ++ crlf)).2 with recvstatus_ := .kHeaderFields }

def bodyCore (m : Message) : Core :=
  { m.lineCore with recvstatus_ := .kBody, headfields_ := m.headfields }

end Message

section
variable {m : Message}

theorem Message.Head.parse (hm : m.Head) :
    parseFirstLine {} (m.firstline ++ crlf) = (true, (parseFirstLine {} (m.firstline ++ crlf)).2) :=
  Prod.ext hm.accepted rfl

theorem text_ne_nil (m : Message) : m.text ≠ [] := by
  simp [Message.text, crlf]

theorem lineCore_keeps (m : Message) :
    m.lineCore.bodyreceiver_ = some {} ∧ m.lineCore.headfields_ = {} := by
  have h : parseFirstLine {} (m.firstline ++ crlf) =
      ((parseFirstLine {} (m.firstline ++ crlf)).1, (parseFirstLine {} (m.firstline ++ crlf)).2) :=
    rfl
  exact parseFirstLine_keeps h

theorem message_line (o : Overload) (hm : m.Head) (hne : m.fields ≠ []) {b : AutoBuffer}
    (hd : b.data = m.text) :
    turnOn o ({}, b) = match search b crlf with
      | .wild => .wild
      | .null => .ret ({ recvstatus_ := if 8 * 1024 < b.length_ then .kFirstLineError
          else .kFirstLine }, b)
      | .found _ => .again (m.lineCore, b.move (-((m.firstline.length + 2 : Nat) : Int))) := by
  rw [turnOn_line o rfl hm.line hd hm.parse,
    afterLine_fields hd (HeaderFields.lines_head hm.fields hne _)]
  rfl

theorem message_fields (o : Overload) (hm : m.Head) (hne : m.fields ≠ []) {b : AutoBuffer}
    (hd : b.data = lines m.fields ++ (crlf ++ m.body)) :
    turnOn o (m.lineCore, b) = match search b crlf2 with
      | .wild => .wild
      | .null => .ret ({ m.lineCore with recvstatus_ := if 128 * 1024 < b.length_ then
          .kHeaderFieldsError else .kHeaderFields }, b)
      | .found _ => .again (m.bodyCore, b.move (-(((lines m.fields).length + 2 : Nat) : Int))) := by
  have hf : (HeaderFields.parserHeaders (lines m.fields ++ crlf) m.lineCore.headfields_).2
      = m.headfields := by rw [(lineCore_keeps m).2, Message.headfields]
  rw [turnOn_fields o rfl hm.fields hne hd, hf]
  rfl

theorem line_moved {b : AutoBuffer} (hd : b.data = m.text) :
    (b.move (-((m.firstline.length + 2 : Nat) : Int))).data = lines m.fields ++ (crlf ++ m.body) := by
  rw [AutoBuffer.move_data, hd, Message.text, ← List.drop_drop, List.drop_left]
  rfl

theorem fields_moved {b : AutoBuffer} (hd : b.data = lines m.fields ++ (crlf ++ m.body)) :
    (b.move (-(((lines m.fields).length + 2 : Nat) : Int))).data = m.body := by
  rw [AutoBuffer.move_data, hd, ← List.drop_drop, List.drop_left]
  rfl

theorem message_reaches (o : Overload) (hm : m.Head) (hne : m.fields ≠ []) {b : AutoBuffer}
    (hd : b.data = m.text) (hlen : b.length_ < 2 ^ 31) :
    ∃ b', Reaches (turnOn o) ({}, b) (m.bodyCore, b') ∧ b'.data = m.body := by
  have hline := message_line o hm hne hd
  have hcrlf : findC crlf b.data = some m.firstline.length := by
    rw [hd, Message.text, findC_crlf_line hm.line]
  have hd1 := line_moved hd
  generalize hb1 : b.move (-((m.firstline.length + 2 : Nat) : Int)) = b1 at hline hd1
  have hlen1 : b1.length_ < 2 ^ 31 := by
    rw [← hb1, AutoBuffer.move_length]
    omega
  obtain ⟨p, hp, -⟩ := HeaderFields.findC_crlf2_lines hm.fields hne m.body
  have hfields := message_fields o hm hne hd1
  rw [search_eq crlf_ne hlen, hcrlf] at hline
  rw [search_eq crlf2_ne hlen1, hd1, hp] at hfields
  exact ⟨_, .step hline (.step hfields (.refl _)), fields_moved hd1⟩

theorem message_body (o : Overload) (hm : m.Head) (hne : m.fields ≠ []) {b : AutoBuffer}
    (hd : b.data = m.text) (hlen : b.length_ < 2 ^ 31) {t : Mem}
    (h : Returns (turnOn o) ({}, b) t) :
    ∃ b', b'.data = m.body ∧ Returns (turnOn o) (m.bodyCore, b') t := by
  obtain ⟨b', hr, hd'⟩ := message_reaches o hm hne hd hlen
  exact ⟨b', hd', h.from_reached hr⟩

end

end Http
