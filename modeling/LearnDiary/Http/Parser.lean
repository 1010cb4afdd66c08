import LearnDiary.Lib.Loop
import LearnDiary.Http.Fields

/-!
# `http::Parser` (comm/http.cc)

The two overloads of `Recv` are loops over one iteration each, `recvTurn` on the parser's own
`recvbuf_` and `recvBufferTurn` on the caller's buffer.  Both read the memory block of the buffer
they work on, so a search that leaves the block is `wild`, as are the signed overflows in the
length computations.  The parts the overloads share (first line, header fields, body) are
functions of the status, fields and receiver (`Core`) and of one buffer; where they differ
(headless messages, the length the last chunk is compared with, the bookkeeping) the two
iterations have bodies of their own.

`BodyReceiver` is the base class together with the bytes it was handed.
-/

namespace Http
open Loop

inductive TRecvStatus where
  | kStart | kFirstLine | kFirstLineError | kHeaderFields | kHeaderFieldsError
  | kBody | kBodyError | kEnd
deriving DecidableEq

namespace TRecvStatus

/-- position in the enumeration -/
def toNat : TRecvStatus → Nat
  | .kStart => 0
  | .kFirstLine => 1
  | .kFirstLineError => 2
  | .kHeaderFields => 3
  | .kHeaderFieldsError => 4
  | .kBody => 5
  | .kBodyError => 6
  | .kEnd => 7

/-- `Parser::Error` -/
def error (s : TRecvStatus) : Bool :=
  s == .kFirstLineError || s == .kHeaderFieldsError || s == .kBodyError

end TRecvStatus

structure BodyReceiver where
  total_length_ : Nat := 0
  body : Bytes := []
deriving DecidableEq

/-- `AppendData(_body, _length)`: `total_length_` is a `size_t`; the bytes are those of the block
that `_body` points into -/
def BodyReceiver.appendData (r : BodyReceiver) (_body : Bytes) (_length : Nat) : BodyReceiver :=
  ⟨(r.total_length_ + _length) % 2 ^ 64, r.body ++ _body.take _length⟩

def BodyReceiver.endData (r : BodyReceiver) : BodyReceiver := r

/-- what the parser has found out so far -/
structure Core where
  recvstatus_ : TRecvStatus := .kStart
  csmode_ : TCsMode := .kRespond
  statusline_ : StatusLine := {}
  requestline_ : RequestLine := {}
  headfields_ : HeaderFields := {}
  bodyreceiver_ : Option BodyReceiver := some {}

structure Parser extends Core where
  recvbuf_ : AutoBuffer := .new
  headerbuf_ : AutoBuffer := .new
  response_header_ready_ : Bool := false
  headerlength_ : Nat := 0

/-- `string_strnstr(Ptr(), sfind, (int)Length())` -/
def search (b : AutoBuffer) (sfind : Bytes) : Search := strnstr b.parray_ sfind (toInt32 b.length_)

/-! ## first line and header fields -/

/-- how the search for a line end or a header end goes on -/
inductive Scan where
  | wild
  | ret (c : Core)
  | hit (pos : Nat) (c : Core)

def parseFirstLine (c : Core) (firstline : Bytes) : Bool × Core :=
  if isStatusLine firstline then
    match c.statusline_.fromString firstline with
    | (true, l) => (true, { c with statusline_ := l, csmode_ := .kRespond })
    | (false, l) => (false, { c with statusline_ := l })
  else
    match c.requestline_.fromString firstline with
    | (true, l) => (true, { c with requestline_ := l, csmode_ := .kRequest })
    | (false, l) => (false, { c with requestline_ := l })

/-- `case kStart: case kFirstLine:` up to `parseFirstlineSuc` -/
def firstLine (c : Core) (b : AutoBuffer) : Scan :=
  match search b crlf with
  | .wild => .wild
  | .null =>
    if 8 * 1024 < b.length_ then .ret { c with recvstatus_ := .kFirstLineError }
    else .ret { c with recvstatus_ := .kFirstLine }
  | .found pos =>
    match parseFirstLine c (b.parray_.take (pos + 2)) with
    | (true, c') => .hit pos c'
    | (false, c') => .ret { c' with recvstatus_ := .kFirstLineError }

/-- `case kHeaderFields:` up to the `Move` -/
def headerFields (c : Core) (b : AutoBuffer) : Scan :=
  match search b crlf2 with
  | .wild => .wild
  | .null =>
    if 128 * 1024 < b.length_ then .ret { c with recvstatus_ := .kHeaderFieldsError }
    else .ret c
  | .found pos =>
    match HeaderFields.parserHeaders (b.parray_.take (pos + 4)) c.headfields_ with
    | (true, f) => .hit pos { c with headfields_ := f, recvstatus_ := .kBody }
    | (false, f) => .ret { c with headfields_ := f, recvstatus_ := .kHeaderFieldsError }

/-! ## body -/

/-- what an iteration does with a chunk: `append` hands over `len` bytes from `off` on and drops
the first `move` bytes, `last` ends the message -/
inductive Chunk where
  | wild
  | wait
  | bad
  | append (off len move : Nat)
  | last (move : Nat)
deriving DecidableEq

def byteAt (m : Bytes) (i : Int) : Option UInt8 := if i < 0 then none else m[i.toNat]?

/-- `*chunkEnd != '\r' || *(chunkEnd + 1) != '\n'`; `none` outside the block -/
def chunkTail (m : Bytes) (chunkEnd : Int) : Option Bool :=
  match byteAt m chunkEnd with
  | none => none
  | some c =>
    if c ≠ 13 then some false
    else (byteAt m (chunkEnd + 1)).map (· == 10)

/-- `strutil::Trim(strChunkSize)`, `strtol(strChunkSize.c_str(), NULL, 16)` -/
def chunkSizeOf (strChunkSize : Bytes) : Int := strtol 16 (trim strChunkSize)

/-- the chunked branch of `case kBody:`; `guardLen` is the length the last chunk is compared with.
`chunkSize + sizeLen + 4` is computed in 64 bits, `sizeLen + 4` is cast to `unsigned int`. -/
def chunkAct (b : AutoBuffer) (guardLen : Nat) : Chunk :=
  match search b crlf with
  | .wild => .wild
  | .null => .wait
  | .found sizeLen =>
    let chunkSize := chunkSizeOf (b.parray_.take sizeLen)
    if chunkSize ≠ 0 then
      if 2 ^ 63 ≤ chunkSize + sizeLen + 4 then .wild
      else if (b.length_ : Int) < chunkSize + sizeLen + 4 then .wait
      else
        match chunkTail b.parray_ (sizeLen + 2 + chunkSize) with
        | none => .wild
        | some false => .bad
        | some true =>
          .append (sizeLen + 2) (toSizeT chunkSize) (sizeLen + 2 + chunkSize + 2).toNat
    else if guardLen < (sizeLen + 4) % 2 ^ 32 then .wait
    else
      match strnstr (b.parray_.drop (sizeLen + 2)) crlf (toInt32 b.length_) with
      | .wild => .wild
      | .null => .wait
      | .found trailer => .last (sizeLen + 2 + trailer + 2)

/-- `appendlen` of the branch with a fixed length; `none` when `contentLength - int(..)` or the
`-appendlen` behind it overflows -/
def appendLen (contentLength : Int) (length delivered : Nat) : Option Int :=
  let appendlen :=
    if toInt32 ((length + delivered : Nat) : Int) ≤ contentLength then toInt32 length
    else contentLength - toInt32 delivered
  if -2 ^ 31 < appendlen ∧ appendlen < 2 ^ 31 then some appendlen else none

/-- `if (0 == Length()) return recvstatus_;` -/
def idle (c : Core) (b : AutoBuffer) : Turn (Core × AutoBuffer) :=
  if b.length_ = 0 then .ret (c, b) else .again (c, b)

/-- `case kBody:` -/
def bodyTurn (c : Core) (b : AutoBuffer) (guardLen : Nat) : Turn (Core × AutoBuffer) :=
  match c.bodyreceiver_ with
  | none => idle c b
  | some r =>
    if c.headfields_.isTransferEncodingChunked then
      match chunkAct b guardLen with
      | .wild => .wild
      | .wait => .ret (c, b)
      | .bad => .ret ({ c with recvstatus_ := .kBodyError }, b)
      | .append off len move =>
        idle { c with bodyreceiver_ := some (r.appendData (b.parray_.drop off) len) }
          (b.move (-(move : Int)))
      | .last move =>
        idle { c with recvstatus_ := .kEnd, bodyreceiver_ := some r.endData }
          (b.move (-(move : Int)))
    else
      let contentLength := c.headfields_.contentLength
      match appendLen contentLength b.length_ r.total_length_ with
      | none => .wild
      | some appendlen =>
        let r' := r.appendData b.parray_ (toSizeT appendlen)
        if toInt32 r'.total_length_ = contentLength then
          .ret ({ c with recvstatus_ := .kEnd, bodyreceiver_ := some r'.endData },
            b.move (-appendlen))
        else idle { c with bodyreceiver_ := some r' } (b.move (-appendlen))

/-! ## the loops -/

/-- one iteration of the loop of `Recv(const void*, size_t)` -/
def recvTurn (p : Parser) : Turn Parser :=
  match p.recvstatus_ with
  | .kStart | .kFirstLine =>
    match firstLine p.toCore p.recvbuf_ with
    | .wild => .wild
    | .ret c => .ret { p with toCore := c }
    | .hit pos c =>
      let headerbuf := p.headerbuf_.write (p.recvbuf_.parray_.take (pos + 2))
      match search p.recvbuf_ crlf2 with
      | .wild => .wild
      | pos_2crlf =>
        if pos_2crlf = .found pos then
          .again { p with toCore := { c with recvstatus_ := .kBody }, headerbuf_ := headerbuf,
                          recvbuf_ := p.recvbuf_.move (-((pos + 2 + 2 : Nat) : Int)) }
        else
          .again { p with toCore := { c with recvstatus_ := .kHeaderFields },
                          headerbuf_ := headerbuf,
                          recvbuf_ := p.recvbuf_.move (-((pos + 2 : Nat) : Int)) }
  | .kHeaderFields =>
    match headerFields p.toCore p.recvbuf_ with
    | .wild => .wild
    | .ret c => .ret { p with toCore := c }
    | .hit pos c =>
      .again { p with toCore := c,
                      headerbuf_ := p.headerbuf_.write (p.recvbuf_.parray_.take (pos + 4)),
                      recvbuf_ := p.recvbuf_.move (-((pos + 4 : Nat) : Int)) }
  | .kBody =>
    (bodyTurn p.toCore p.recvbuf_ p.recvbuf_.length_).map
      (fun s => { p with toCore := s.1, recvbuf_ := s.2 })
  | .kEnd => .ret p
  | .kFirstLineError | .kHeaderFieldsError | .kBodyError => .again p

/-- one iteration of the loop of `Recv(AutoBuffer&)`: no headless messages, and the last chunk is
compared with `recvbuf_.Length()`, not with the length of the buffer it stands in -/
def recvBufferTurn (s : Parser × AutoBuffer) : Turn (Parser × AutoBuffer) :=
  match s.1.recvstatus_ with
  | .kStart | .kFirstLine =>
    match firstLine s.1.toCore s.2 with
    | .wild => .wild
    | .ret c => .ret ({ s.1 with toCore := c }, s.2)
    | .hit pos c =>
      .again ({ s.1 with toCore := { c with recvstatus_ := .kHeaderFields } },
        s.2.move (-((pos + 2 : Nat) : Int)))
  | .kHeaderFields =>
    match headerFields s.1.toCore s.2 with
    | .wild => .wild
    | .ret c => .ret ({ s.1 with toCore := c }, s.2)
    | .hit pos c =>
      .again ({ s.1 with toCore := c, headerlength_ := pos + 4 },
        s.2.move (-((pos + 4 : Nat) : Int)))
  | .kBody =>
    (bodyTurn s.1.toCore s.2 s.1.recvbuf_.length_).map
      (fun t => ({ s.1 with toCore := t.1 }, t.2))
  | .kEnd => .ret s
  | .kFirstLineError | .kHeaderFieldsError | .kBodyError => .again s

/-! ## the calls -/

/-- the header capture at the entry of both overloads; the search stays inside the block, which
has fewer than `2^31` bytes here -/
def capture (p : Parser) (_buffer : Bytes) : Parser :=
  if p.recvstatus_.toNat < TRecvStatus.kBody.toNat ∧ p.headerbuf_.length_ < 4096 ∧
      p.response_header_ready_ = false then
    let headerbuf := p.headerbuf_.write (_buffer.take 4096)
    if 4 < headerbuf.length_ then
      match search headerbuf crlf2 with
      | .found pos =>
        if h : pos + 4 ≤ headerbuf.capacity then
          { p with headerbuf_ := headerbuf.setLength 0 (pos + 4) (Nat.zero_le _) h,
                   response_header_ready_ := true }
        else { p with headerbuf_ := headerbuf }
      | _ => { p with headerbuf_ := headerbuf }
    else { p with headerbuf_ := headerbuf }
  else p

/-- what happens before the loop of `Recv(const void*, size_t)` -/
def enter (p : Parser) (_buffer : Bytes) : Parser :=
  { capture p _buffer with recvbuf_ := p.recvbuf_.write _buffer }

/-- `Recv(const void*, size_t)` returns and leaves the parser in the state `q` -/
def Recv (p : Parser) (_buffer : Bytes) (q : Parser) : Prop :=
  if _buffer = [] then q = p else Returns recvTurn (enter p _buffer) q

/-- the call returns within `n` iterations, in a state with `f` -/
def recvWithin (n : Nat) (p : Parser) (_buffer : Bytes) (f : Parser → Bool) : Bool :=
  match iter recvTurn n (enter p _buffer) with
  | .ret q => !_buffer.isEmpty && f q
  | _ => false

theorem recv_of_within {n : Nat} {p : Parser} {d : Bytes} {f : Parser → Bool}
    (h : recvWithin n p d f = true) : ∃ q, Recv p d q ∧ f q = true := by
  unfold recvWithin at h
  split at h
  · rename_i q hq
    rw [Bool.and_eq_true] at h
    have hne : d ≠ [] := by simpa using h.1
    exact ⟨q, by unfold Recv; rw [if_neg hne]; exact Returns.of_iter hq, h.2⟩
  · cases h

/-- `Recv(AutoBuffer&)` returns and leaves parser and buffer in the state `s` -/
def RecvBuffer (p : Parser) (_recv_buffer : AutoBuffer) (s : Parser × AutoBuffer) : Prop :=
  if _recv_buffer.length_ = 0 then s = (p, _recv_buffer)
  else Returns recvBufferTurn (capture p _recv_buffer.data, _recv_buffer) s

/-- the call returns within `n` iterations, in a state with `f` -/
def recvBufferWithin (n : Nat) (p : Parser) (_recv_buffer : AutoBuffer)
    (f : Parser × AutoBuffer → Bool) : Bool :=
  match iter recvBufferTurn n (capture p _recv_buffer.data, _recv_buffer) with
  | .ret s => _recv_buffer.length_ != 0 && f s
  | _ => false

theorem recvBuffer_of_within {n : Nat} {p : Parser} {b : AutoBuffer}
    {f : Parser × AutoBuffer → Bool} (h : recvBufferWithin n p b f = true) :
    ∃ s, RecvBuffer p b s ∧ f s = true := by
  unfold recvBufferWithin at h
  split at h
  · rename_i s hs
    rw [Bool.and_eq_true] at h
    have hne : b.length_ ≠ 0 := by simpa using h.1
    exact ⟨s, by unfold RecvBuffer; rw [if_neg hne]; exact Returns.of_iter hs, h.2⟩
  · cases h

-- a call on concrete bytes is computed by `recvWithin`, never by unfolding the proposition
attribute [irreducible] Recv RecvBuffer

theorem recv_nil (p : Parser) : Recv p [] p := by
  unfold Recv
  rw [if_pos rfl]

/-- the calls `Recv(const void*, size_t)` for the pieces, one after the other -/
inductive RecvAll : Parser → List Bytes → Parser → Prop where
  | nil (p : Parser) : RecvAll p [] p
  | cons {p q r : Parser} {piece : Bytes} {pieces : List Bytes} :
      Recv p piece q → RecvAll q pieces r → RecvAll p (piece :: pieces) r

/-- the calls for the pieces return, each within `n` iterations, the last in a state with `f` -/
def recvAllWithin (n : Nat) (f : Parser → Bool) : Parser → List Bytes → Bool
  | p, [] => f p
  | p, piece :: pieces =>
    match iter recvTurn n (enter p piece) with
    | .ret q => !piece.isEmpty && recvAllWithin n f q pieces
    | _ => false

theorem recvAll_of_within {n : Nat} {f : Parser → Bool} {p : Parser} {l : List Bytes}
    (h : recvAllWithin n f p l = true) : ∃ q, RecvAll p l q ∧ f q = true := by
  induction l generalizing p with
  | nil => exact ⟨p, .nil p, h⟩
  | cons piece pieces ih =>
    unfold recvAllWithin at h
    split at h
    · rename_i q hq
      rw [Bool.and_eq_true] at h
      have hne : piece ≠ [] := by simpa using h.1
      obtain ⟨r, hr, hf⟩ := ih h.2
      exact ⟨r, .cons (by unfold Recv; rw [if_neg hne]; exact Returns.of_iter hq) hr, hf⟩
    · cases h

end Http
