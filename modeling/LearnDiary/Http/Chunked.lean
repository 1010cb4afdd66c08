import LearnDiary.Http.Machine

/-!
# Chunked coding (comm/http.cc)

`IStreamBodyProvider` frames blocks of data, the parser in `kBody` takes the frames apart again.
Between two calls it has taken all complete frames and keeps the incomplete one (`left`).  The
lengths are cast to `int`: from `2^31` buffered bytes on no line end is found.

* `chunkAct_chunk`    a chunk in front of the buffer, whatever part of it has arrived;
* `decoding_run`      a call takes all complete frames and stops at the incomplete one;
* `big_turn`          with `2^31` buffered bytes the end of the body is out of reach;
* `chunked_iff`       the blocks come out exactly when no call sees `2^31` buffered bytes.
-/

namespace Http
open Loop

namespace IStreamBodyProvider

/-- `EofData` -/
def eofData : Bytes := [48, 13, 10, 13, 10]

/-- `AppendHeader`: `"%x\r\n"` of an `unsigned int`, `snprintf` into 16 bytes keeps 15 of them -/
def appendHeader (_body : AutoBuffer) (_length : Nat) : AutoBuffer :=
  _body.write ((printNat 16 (_length % 2 ^ 32) ++ crlf).take 15)

/-- `AppendTail` -/
def appendTail (_body : AutoBuffer) : AutoBuffer := _body.write crlf

def appendBlock (_body : AutoBuffer) (block : Bytes) : AutoBuffer :=
  appendTail ((appendHeader _body block.length).write block)

/-- all blocks, then `EofData` -/
def streamBody (blocks : List Bytes) : AutoBuffer :=
  (blocks.foldl appendBlock .new).write eofData

end IStreamBodyProvider

open IStreamBodyProvider

/-! ## a chunk in front of the buffer -/

theorem search_line {b : AutoBuffer} {line rest t : Bytes} {pos : Nat}
    (hl : ∀ c ∈ line, LineByte c) (hd : b.data ++ t = line ++ (crlf ++ rest))
    (h : search b crlf = .found pos) : pos = line.length := by
  have h1 : findC crlf (b.data ++ t) = some pos :=
    Find.findUpTo_append notNul t (search_found crlf_ne h)
  rw [hd, findC_crlf_line hl rest] at h1
  exact (Option.some.inj h1).symm

/-- below `2^31` bytes a line end that has arrived is found -/
theorem search_line_found {b : AutoBuffer} {line rest t : Bytes} (hl : ∀ c ∈ line, LineByte c)
    (hd : b.data ++ t = line ++ (crlf ++ rest)) (hlen : b.length_ < 2 ^ 31)
    (hle : line.length + 2 ≤ b.length_) : search b crlf = .found line.length := by
  rw [← b.data_length] at hle
  have h1 := findC_crlf_line hl rest
  rw [← hd] at h1
  have h2 : findC crlf b.data = some line.length := Find.findUpTo_front notNul h1 hle
  rw [search_eq crlf_ne hlen, h2]
  rfl

theorem take_line {b : AutoBuffer} {line rest t : Bytes} (hd : b.data ++ t = line ++ rest)
    (hle : line.length ≤ b.length_) : b.parray_.take line.length = line := by
  have h1 : (b.data ++ t).take line.length = line := by rw [hd, List.take_left]
  rw [List.take_append_of_le_length (by rw [b.data_length]; exact hle)] at h1
  rw [take_data b hle, h1]

theorem drop_part {b : AutoBuffer} {part rest t : Bytes} (hd : b.data ++ t = part ++ rest)
    (hle : part.length ≤ b.length_) : b.data.drop part.length ++ t = rest := by
  rw [← List.drop_append_of_le_length (by rw [b.data_length]; exact hle), hd, List.drop_left]

/-- **A chunk in front of the buffer**, of which the bytes `t` have not arrived. -/
theorem chunkAct_chunk {b : AutoBuffer} {line data rest t : Bytes} (g : Nat)
    (hl : ∀ c ∈ line, LineByte c) (hs : chunkSizeOf line = data.length) (hne : data ≠ [])
    (hlen : line.length + data.length + 4 < 2 ^ 63)
    (hd : b.data ++ t = line ++ (crlf ++ (data ++ (crlf ++ rest)))) :
    chunkAct b g = match search b crlf with
      | .wild => .wild
      | .null => .wait
      | .found _ =>
        if b.length_ < line.length + data.length + 4 then .wait
        else .append (line.length + 2) data.length (line.length + data.length + 4) := by
  have h2 : crlf.length = 2 := rfl
  have hpos : 0 < data.length := List.length_pos_iff.mpr hne
  unfold chunkAct
  cases e : search b crlf with
  | wild => rfl
  | null => rfl
  | found pos =>
    have hle := search_found_le crlf_ne e
    obtain rfl := search_line hl hd e
    simp only [take_line hd (by omega), hs]
    rw [if_pos (by omega), if_neg (by omega)]
    by_cases hw : b.length_ < line.length + data.length + 4
    · rw [if_pos (by omega), if_pos hw]
    · rw [if_neg (by omega), if_neg hw]
      have hd' : b.data ++ t = (line ++ (crlf ++ data)) ++ (crlf ++ rest) := by
        rw [hd]
        simp
      have hplen : (line ++ (crlf ++ data)).length = line.length + 2 + data.length := by
        rw [List.length_append, List.length_append]
        omega
      have hdrop := drop_part hd' (by omega)
      rw [hplen] at hdrop
      have hcrlf : crlf <+: b.data.drop (line.length + 2 + data.length) := by
        refine List.prefix_of_prefix_length_le (List.prefix_append crlf rest) ?_ ?_
        · rw [← hdrop]
          exact List.prefix_append _ _
        · rw [List.length_drop, b.data_length]
          omega
      have htail : chunkTail b.parray_ ((line.length : Int) + 2 + data.length) = some true := by
        have h3 := chunkTail_eq b (e := line.length + 2 + data.length) (by omega)
        rw [decide_eq_true hcrlf] at h3
        rw [← h3]
        congr 1
      rw [htail]
      simp only [Chunk.append.injEq, true_and]
      exact ⟨toSizeT_of_lt (by omega), by omega⟩

/-! ## the coded blocks -/

/-- length of the frame around a block, with the block -/
def frameLen (block : Bytes) : Nat := (printNat 16 block.length).length + block.length + 4

/-- the text of the blocks and `EofData` -/
def coded : List Bytes → Bytes
  | [] => eofData
  | x :: bs => printNat 16 x.length ++ (crlf ++ (x ++ (crlf ++ coded bs)))

theorem sizeLine_length {n : Nat} (h : n < 2 ^ 31) : (printNat 16 n).length ≤ 8 :=
  printNat_length (Nat.lt_of_lt_of_le h (by norm_num))

theorem sizeLine_bytes (n : Nat) : ∀ c ∈ printNat 16 n, LineByte c := by
  intro c hc
  obtain ⟨d, hd, rfl⟩ := printNat_mem (by decide) hc
  interval_cases d <;> decide

theorem chunkSizeOf_sizeLine {n : Nat} (h : n < 2 ^ 63) : chunkSizeOf (printNat 16 n) = n := by
  have hsp : ∀ c ∈ printNat 16 n, isspace c = false := fun c hc => by
    obtain ⟨d, hd, rfl⟩ := printNat_mem (by decide) hc
    exact (digitChar_ne hd).1
  unfold chunkSizeOf
  rw [trim_of_no_space hsp, strtol_printNat (by decide) (by decide) h]

theorem coded_length (x : Bytes) (bs : List Bytes) :
    (coded (x :: bs)).length = frameLen x + (coded bs).length := by
  have : crlf.length = 2 := rfl
  unfold frameLen
  simp only [coded, List.length_append]
  omega

theorem coded_pos (bs : List Bytes) : 0 < (coded bs).length := by
  cases bs with
  | nil => decide
  | cons x bs =>
    rw [coded_length]
    unfold frameLen
    omega

theorem coded_le {bs : List Bytes} (h : ∀ x ∈ bs, x ≠ [] ∧ x.length < 2 ^ 31) :
    (coded bs).length ≤ 13 * bs.flatten.length + 5 := by
  induction bs with
  | nil => exact Nat.le_refl _
  | cons x bs ih =>
    obtain ⟨hne, hlt⟩ := h x List.mem_cons_self
    have h1 := ih (fun y hy => h y (List.mem_cons_of_mem _ hy))
    have h2 := sizeLine_length hlt
    have h3 : 0 < x.length := List.length_pos_iff.mpr hne
    rw [coded_length, List.flatten_cons, List.length_append]
    unfold frameLen
    omega

theorem appendHeader_data {b : AutoBuffer} (hb : b.Tail) {n : Nat} (h : n < 2 ^ 31) :
    (appendHeader b n).data = b.data ++ (printNat 16 n ++ crlf) := by
  have h1 := sizeLine_length h
  have h2 : crlf.length = 2 := rfl
  unfold appendHeader
  rw [AutoBuffer.write_data _ _ hb.pos, Nat.mod_eq_of_lt (by omega),
    List.take_of_length_le (by rw [List.length_append]; omega)]

theorem appendBlock_data {b : AutoBuffer} (hb : b.Tail) {x : Bytes} (h : x.length < 2 ^ 31) :
    (appendBlock b x).data = b.data ++ (printNat 16 x.length ++ (crlf ++ (x ++ crlf))) ∧
      (appendBlock b x).Tail := by
  have h1 : (appendHeader b x.length).Tail := hb.write _
  have h2 := h1.write x
  refine ⟨?_, h2.write crlf⟩
  unfold appendBlock appendTail
  rw [AutoBuffer.write_data _ _ h2.pos, AutoBuffer.write_data _ _ h1.pos, appendHeader_data hb h]
  simp

theorem foldl_appendBlock {blocks : List Bytes} (h : ∀ x ∈ blocks, x.length < 2 ^ 31)
    {b : AutoBuffer} (hb : b.Tail) :
    ((blocks.foldl appendBlock b).write eofData).data = b.data ++ coded blocks := by
  induction blocks generalizing b with
  | nil => exact AutoBuffer.write_data _ _ hb.pos
  | cons x blocks ih =>
    obtain ⟨h1, h2⟩ := appendBlock_data hb (h x List.mem_cons_self)
    rw [List.foldl_cons, ih (fun y hy => h y (List.mem_cons_of_mem _ hy)) h2, h1]
    simp [coded]

theorem streamBody_data {blocks : List Bytes} (h : ∀ x ∈ blocks, x.length < 2 ^ 31) :
    (streamBody blocks).data = coded blocks := foldl_appendBlock h AutoBuffer.Tail.new

/-! ## between the iterations -/

/-- in the middle of a body that adds up to `body`: the blocks `bs` are not taken, the bytes `t`
have not arrived -/
structure Decoding (body : Bytes) (bs : List Bytes) (t : Bytes) (s : Mem) : Prop where
  status : s.1.recvstatus_ = .kBody
  chunked : s.1.headfields_.isTransferEncodingChunked = true
  receiver : ∃ r, s.1.bodyreceiver_ = some r ∧ r.body ++ bs.flatten = body
  buffer : s.2.data ++ t = coded bs
  tail : s.2.Tail

/-- the body is over and nothing is left -/
structure Ended (body : Bytes) (s : Mem) : Prop where
  status : s.1.recvstatus_ = .kEnd
  empty : s.2.length_ = 0
  receiver : ∃ r, s.1.bodyreceiver_ = some r ∧ r.body = body

/-- bytes behind the last complete frame among the first `n` bytes of the coded blocks -/
def left : List Bytes → Nat → Nat
  | [], n => n
  | x :: bs, n => if n < frameLen x then n else left bs (n - frameLen x)

section
variable {body t : Bytes} {bs : List Bytes} {s : Mem}

theorem Decoding.length (h : Decoding body bs t s) : s.2.length_ + t.length = (coded bs).length := by
  rw [← s.2.data_length, ← List.length_append, h.buffer]

/-- **A frame in front of the buffer**: below `2^31` bytes it is taken when it is complete, and an
incomplete one ends the call; beyond, it is taken or the call ends. -/
theorem decoding_block {x : Bytes} (hx : x ≠ [] ∧ x.length < 2 ^ 31)
    (h : Decoding body (x :: bs) t s) :
    (turnOn rawOverload s = .wild ∧ 2 ^ 31 ≤ s.2.length_) ∨
    (turnOn rawOverload s = .ret s ∧ (s.2.length_ < frameLen x ∨ 2 ^ 31 ≤ s.2.length_)) ∨
    (∃ s' : Mem, turnOn rawOverload s = idle s'.1 s'.2 ∧ Decoding body bs t s' ∧
      s'.2.length_ + frameLen x = s.2.length_ ∧ 0 ≤ toInt32 s.2.length_) := by
  obtain ⟨c, b⟩ := s
  obtain ⟨hst, hc, ⟨r, hr, hbody⟩, hd, ht⟩ := h
  replace hd : b.data ++ t = coded (x :: bs) := hd
  replace ht : b.Tail := ht
  obtain ⟨hne, hlt⟩ := hx
  have hl := sizeLine_length hlt
  have hbytes := sizeLine_bytes x.length
  have hturn := (turnOn_body rawOverload b hst).trans (bodyTurn_chunked hr hc)
  rw [chunkAct_chunk (rawOverload.guard b.length_) hbytes (chunkSizeOf_sizeLine (by omega)) hne
    (by omega) hd] at hturn
  show (_ ∧ 2 ^ 31 ≤ b.length_) ∨ (_ ∧ (b.length_ < frameLen x ∨ 2 ^ 31 ≤ b.length_)) ∨ _
  cases e : search b crlf with
  | wild =>
    simp only [e] at hturn
    refine Or.inl ⟨hturn, Nat.le_of_not_lt (fun hlen => ?_)⟩
    rw [search_eq crlf_ne hlen] at e
    cases e' : findC crlf b.data <;> rw [e'] at e <;> cases e
  | null =>
    simp only [e] at hturn
    refine Or.inr (Or.inl ⟨hturn, ?_⟩)
    by_contra hno
    obtain ⟨h1, h2⟩ := not_or.mp hno
    replace h1 : ¬ b.length_ < frameLen x := h1
    unfold frameLen at h1
    rw [search_line_found hbytes hd (Nat.lt_of_not_le h2) (by omega)] at e
    cases e
  | found pos =>
    have hsign : 0 ≤ toInt32 b.length_ := by
      by_contra hneg
      exact strnstr_neg crlf_ne (by omega) pos e
    simp only [e] at hturn
    by_cases hw : b.length_ < (printNat 16 x.length).length + x.length + 4
    · rw [if_pos hw] at hturn
      exact Or.inr (Or.inl ⟨hturn, Or.inl hw⟩)
    · rw [if_neg hw] at hturn
      have hle : frameLen x ≤ b.length_ := Nat.le_of_not_lt hw
      refine Or.inr (Or.inr ⟨({ c with bodyreceiver_ := some (r.appendData
        (b.parray_.drop ((printNat 16 x.length).length + 2)) x.length) },
        b.move (-(frameLen x : Int))), hturn, ⟨hst, hc, ⟨_, rfl, ?_⟩, ?_,
        ht.move (-(frameLen x : Int))⟩, ?_, hsign⟩)
      · -- the block that is handed over
        have hd' : b.data ++ t = (printNat 16 x.length ++ crlf) ++ (x ++ (crlf ++ coded bs)) := by
          rw [hd]
          simp [coded]
        have hplen : (printNat 16 x.length ++ crlf).length = (printNat 16 x.length).length + 2 := by
          rw [List.length_append]
          rfl
        have hdrop := drop_part hd' (by omega)
        rw [hplen] at hdrop
        have hblock : (b.data.drop ((printNat 16 x.length).length + 2)).take x.length = x := by
          rw [← List.take_append_of_le_length
            (by rw [List.length_drop, b.data_length]; omega), hdrop, List.take_left]
        unfold BodyReceiver.appendData
        simp only
        rw [drop_take_data b (by omega), hblock, List.append_assoc, ← List.flatten_cons]
        exact hbody
      · -- behind the frame
        have hd' : b.data ++ t = (printNat 16 x.length ++ (crlf ++ (x ++ crlf))) ++ coded bs := by
          rw [hd]
          simp [coded]
        have hplen : (printNat 16 x.length ++ (crlf ++ (x ++ crlf))).length = frameLen x := by
          unfold frameLen
          simp only [List.length_append, crlf, List.length_cons, List.length_nil]
          omega
        have hdrop := drop_part hd' (by omega)
        rw [hplen] at hdrop
        rw [AutoBuffer.move_data]
        exact hdrop
      · rw [AutoBuffer.move_length]
        exact Nat.sub_add_cancel hle

theorem search_ne_wild {b : AutoBuffer} (hlen : b.length_ < 2 ^ 31) : search b crlf ≠ .wild := by
  rw [search_eq crlf_ne hlen]
  cases findC crlf b.data <;> exact Search.noConfusion

theorem chunkAct_zero {b : AutoBuffer} {line rest : Bytes} {g : Nat} (hlen : b.length_ < 2 ^ 31)
    (hl : ∀ c ∈ line, LineByte c) (hs : chunkSizeOf line = 0)
    (hd : b.data ++ t = line ++ (crlf ++ rest)) :
    chunkAct b g = if b.length_ < line.length + 2 ∨ g < line.length + 4 then .wait
      else match strnstr (b.parray_.drop (line.length + 2)) crlf (toInt32 b.length_) with
        | .wild => .wild
        | .null => .wait
        | .found trailer => .last (line.length + 2 + trailer + 2) := by
  unfold chunkAct
  cases e : search b crlf with
  | wild => exact absurd e (search_ne_wild hlen)
  | null =>
    have hlt : b.length_ < line.length + 2 := by
      by_contra hge
      rw [search_line_found hl hd hlen (by omega)] at e
      cases e
    rw [if_pos (Or.inl hlt)]
  | found pos =>
    have hle : pos + 2 ≤ b.length_ := search_found_le crlf_ne e
    obtain rfl := search_line hl hd e
    simp only [take_line hd (by omega), hs]
    rw [if_neg (by omega), Nat.mod_eq_of_lt (by omega)]
    by_cases hg : g < line.length + 4
    · rw [if_pos hg, if_pos (Or.inr hg)]
    · refine (if_neg hg).trans (Eq.trans ?_ (if_neg (by omega)).symm)
      cases strnstr (b.parray_.drop (line.length + 2)) crlf (toInt32 b.length_) <;> rfl

theorem zeroLine : ∀ c ∈ ([48] : Bytes), LineByte c := by
  intro c hc
  rw [List.mem_singleton.mp hc]
  exact ⟨by decide, by decide⟩

theorem decoding_wait (ht : t ≠ []) (h : Decoding body [] t s) : turnOn rawOverload s = .ret s := by
  obtain ⟨c, b⟩ := s
  have hL := h.length
  obtain ⟨hst, hc, ⟨r, hr, -⟩, hd, -⟩ := h
  have h5 : (coded []).length = 5 := rfl
  have hpos : 0 < t.length := List.length_pos_iff.mpr ht
  replace hL : b.length_ + t.length = 5 := hL
  replace hd : b.data ++ t = [48] ++ (crlf ++ crlf) := hd
  have hact : chunkAct b (rawOverload.guard b.length_) = .wait := by
    rw [chunkAct_zero (by omega) zeroLine (by decide) hd,
      if_pos (Or.inr (by show b.length_ < 5; omega))]
  rw [turnOn_body rawOverload b hst, bodyTurn_chunked hr hc, hact]

/-- **A complete `EofData`** ends the body. -/
theorem decoding_eof (h : Decoding body [] [] s) :
    ∃ s', turnOn rawOverload s = .ret s' ∧ Ended body s' := by
  obtain ⟨c, b⟩ := s
  have hL := h.length
  obtain ⟨hst, hc, ⟨r, hr, hbody⟩, hd, ht⟩ := h
  replace hL : b.length_ = 5 := hL
  replace hd : b.data ++ [] = eofData := hd
  have hcap : 128 ≤ b.parray_.length := by
    have h1 := b.length_le
    have h2 : 128 ∣ b.parray_.length := ht.dvd
    omega
  have hdrop : crlf <+: (b.parray_.drop 3).take 5 := by
    have h1 : (b.parray_.drop 3).take 2 = crlf := by
      rw [drop_take_data b (by omega), ← List.append_nil b.data, hd]
      rfl
    rw [← h1]
    exact List.take_prefix_take_left (by decide)
  have hfind : strnstr (b.parray_.drop 3) crlf (toInt32 b.length_) = .found 0 := by
    obtain ⟨u, hu⟩ := hdrop
    have h1 : findC crlf crlf = some 0 := by decide
    have h2 : findC crlf (crlf ++ u) = some 0 := Find.findUpTo_append notNul u h1
    rw [hL, toInt32_of_lt (by decide), strnstr_eq _ _ crlf_ne 5
      (by rw [List.length_drop]; omega) (by decide), ← hu, h2]
    rfl
  have hd' : b.data ++ [] = [48] ++ (crlf ++ crlf) := hd
  have hact : chunkAct b (rawOverload.guard b.length_) = .last 5 := by
    rw [chunkAct_zero (by omega) zeroLine (by decide) hd',
      if_neg (by show ¬ (b.length_ < 3 ∨ b.length_ < 5); omega)]
    simp only [List.length_singleton, Nat.reduceAdd, hfind]
  have hzero : (b.move (-((5 : Nat) : Int))).length_ = 0 := by
    rw [AutoBuffer.move_length]
    omega
  refine ⟨({ c with recvstatus_ := .kEnd, bodyreceiver_ := some r }, b.move (-((5 : Nat) : Int))),
    ?_, rfl, hzero, r, rfl, by simpa using hbody⟩
  rw [turnOn_body rawOverload b hst, bodyTurn_chunked hr hc, hact]
  unfold idle
  simp only [hzero, if_true]
  rfl

/-- the loop goes on as long as there are bytes; without bytes it waits -/
theorem decoding_idle {s r : Mem} (hblocks : ∀ x ∈ bs, x ≠ [] ∧ x.length < 2 ^ 31)
    (h : Decoding body bs t s) (hr : Returns (turnOn rawOverload) s r) {u : Mem}
    (hu : turnOn rawOverload u = idle s.1 s.2) : Returns (turnOn rawOverload) u r := by
  unfold idle at hu
  by_cases h0 : s.2.length_ = 0
  · rw [if_pos h0] at hu
    have hret : turnOn rawOverload s = .ret s := by
      cases bs with
      | nil =>
        have hL := h.length
        have h5 : (coded []).length = 5 := rfl
        exact decoding_wait (fun e => by rw [e, List.length_nil] at hL; omega) h
      | cons x bs =>
        rcases decoding_block (hblocks x List.mem_cons_self) h with ⟨_, hge⟩ | ⟨e, _⟩ | ⟨s', _, _, hlen, _⟩
        · omega
        · exact e
        · unfold frameLen at hlen
          omega
    rw [hr.det (.ret hret)]
    exact .ret hu
  · rw [if_neg h0] at hu
    exact .again hu hr

/-- **A call takes all complete frames** and stops at the incomplete one, or at the end of the
body. -/
theorem decoding_run (hblocks : ∀ x ∈ bs, x ≠ [] ∧ x.length < 2 ^ 31) (h : Decoding body bs t s)
    (hlen : s.2.length_ < 2 ^ 31) : ∃ s', Returns (turnOn rawOverload) s s' ∧
      (t = [] → Ended body s') ∧
      (t ≠ [] → ∃ bs', bs' <:+ bs ∧ Decoding body bs' t s' ∧
        (∀ m, left bs (s.2.length_ + m) = left bs' (s'.2.length_ + m)) ∧
        left bs' s'.2.length_ = s'.2.length_) := by
  induction bs generalizing s with
  | nil =>
    by_cases ht : t = []
    · subst ht
      obtain ⟨s', e, hs'⟩ := decoding_eof h
      exact ⟨s', .ret e, fun _ => hs', fun hne => absurd rfl hne⟩
    · exact ⟨s, .ret (decoding_wait ht h), fun e => absurd e ht,
        fun _ => ⟨[], List.suffix_refl _, h, fun _ => rfl, rfl⟩⟩
  | cons x bs ih =>
    have hx := hblocks x List.mem_cons_self
    have hbs : ∀ y ∈ bs, y ≠ [] ∧ y.length < 2 ^ 31 :=
      fun y hy => hblocks y (List.mem_cons_of_mem _ hy)
    rcases decoding_block hx h with ⟨_, hge⟩ | ⟨e, hw⟩ | ⟨s', e, hs', hL, _⟩
    · omega
    · have hlt : s.2.length_ < frameLen x := by omega
      have hcoded := h.length
      rw [coded_length] at hcoded
      refine ⟨s, .ret e, fun ht => ?_, fun _ => ⟨_, List.suffix_refl _, h, fun _ => rfl, ?_⟩⟩
      · rw [ht, List.length_nil] at hcoded
        omega
      · unfold left
        rw [if_pos hlt]
    · obtain ⟨s'', hr, hend, hmid⟩ := ih hbs hs' (by omega)
      refine ⟨s'', decoding_idle hbs hs' hr e, hend, fun ht => ?_⟩
      obtain ⟨bs', hsuf, hdec, hleft, hself⟩ := hmid ht
      refine ⟨bs', hsuf.trans (List.suffix_cons x bs), hdec, fun m => ?_, hself⟩
      rw [← hleft m, left, if_neg (by omega)]
      congr 1
      omega

end

/-! ## calls -/

/-- in every call the bytes of the incomplete frame and the piece are fewer than `2^31`; `n` bytes
of the coded blocks have been received before -/
def Fits (bs : List Bytes) (n : Nat) (pieces : List Bytes) : Prop :=
  ∀ a x c, pieces = a ++ x :: c → left bs (n + a.flatten.length) + x.length < 2 ^ 31

theorem fits_cons {bs : List Bytes} {n : Nat} {x : Bytes} {rest : List Bytes} :
    Fits bs n (x :: rest) ↔ left bs n + x.length < 2 ^ 31 ∧ Fits bs (n + x.length) rest := by
  constructor
  · intro h
    refine ⟨h [] x rest rfl, fun a y c e => ?_⟩
    have h1 := h (x :: a) y c (by rw [e]; rfl)
    rwa [List.flatten_cons, List.length_append, ← Nat.add_assoc] at h1
  · rintro ⟨h1, h2⟩ a y c e
    cases a with
    | nil =>
      cases e
      exact h1
    | cons z a =>
      cases e
      rw [List.flatten_cons, List.length_append, ← Nat.add_assoc]
      exact h2 a y c rfl

theorem fits_left {bs bs' : List Bytes} {n n' : Nat}
    (h : ∀ m, left bs (n + m) = left bs' (n' + m)) (pieces : List Bytes) :
    Fits bs n pieces ↔ Fits bs' n' pieces := by
  unfold Fits
  simp only [h]

theorem fits_nil (bs : List Bytes) (n : Nat) : Fits bs n [] := by
  intro a x c e
  simp at e

/-- the last piece ends the body with nothing left, and none before does -/
structure Delivered (p : Parser) (body : Bytes) (pieces : List Bytes) : Prop where
  ended : ∃ q, RecvAll p pieces q ∧ Ended body q.mem
  before : ∀ a c q, pieces = a ++ c → c ≠ [] → RecvAll p a q → q.recvstatus_ ≠ .kEnd

theorem Recv.det {p q q' : Parser} {d : Bytes} (h : Recv p d q) (h' : Recv p d q') : q = q' := by
  unfold Recv at h h'
  split at h
  · rename_i e
    rw [if_pos e] at h'
    rw [h, h']
  · rename_i e
    rw [if_neg e] at h'
    exact h.det h'

theorem RecvAll.det {p q q' : Parser} {pieces : List Bytes} (h : RecvAll p pieces q)
    (h' : RecvAll p pieces q') : q = q' := by
  induction h with
  | nil =>
    cases h'
    rfl
  | cons e _ ih =>
    cases h' with
    | cons e' h' =>
      cases e.det e'
      exact ih h'

section
variable {body t : Bytes} {bs : List Bytes}

theorem decoding_write {p : Parser} {d : Bytes} (h : Decoding body bs (d ++ t) p.mem) :
    Decoding body bs t (p.toCore, p.recvbuf_.write d) ∧
      (p.recvbuf_.write d).length_ = p.recvbuf_.length_ + d.length := by
  obtain ⟨hst, hc, hr, hd, ht⟩ := h
  replace ht : p.recvbuf_.Tail := ht
  have hw := AutoBuffer.write_data p.recvbuf_ d ht.pos
  refine ⟨⟨hst, hc, hr, ?_, ht.write d⟩, ?_⟩
  · show (p.recvbuf_.write d).data ++ t = coded bs
    rw [hw, List.append_assoc]
    exact hd
  · rw [← AutoBuffer.data_length, hw, List.length_append, AutoBuffer.data_length]

theorem flatten_ne_nil {pieces : List Bytes} (hne : pieces ≠ []) (h : ∀ x ∈ pieces, x ≠ []) :
    pieces.flatten ≠ [] := by
  obtain ⟨x, l, rfl⟩ := List.exists_cons_of_ne_nil hne
  simp [h x List.mem_cons_self]

/-- **The calls for the pieces** end the body when the pieces are the rest of it, and leave the
parser in `kBody` when more is to come. -/
theorem decoding_calls {pieces : List Bytes} (hpieces : ∀ x ∈ pieces, x ≠ [])
    (hne : pieces ≠ []) {p : Parser} (hblocks : ∀ x ∈ bs, x ≠ [] ∧ x.length < 2 ^ 31)
    (h : Decoding body bs (pieces.flatten ++ t) p.mem)
    (hleft : left bs p.recvbuf_.length_ = p.recvbuf_.length_)
    (hfits : Fits bs p.recvbuf_.length_ pieces) :
    ∃ q, RecvAll p pieces q ∧ (t = [] → Ended body q.mem) ∧ (t ≠ [] → q.recvstatus_ = .kBody) := by
  induction pieces generalizing p bs with
  | nil => exact absurd rfl hne
  | cons x rest ih =>
    have hx := hpieces x List.mem_cons_self
    have hrest : ∀ y ∈ rest, y ≠ [] := fun y hy => hpieces y (List.mem_cons_of_mem _ hy)
    rw [List.flatten_cons, List.append_assoc] at h
    obtain ⟨hdec, hlen⟩ := decoding_write h
    obtain ⟨hsmall, hfits'⟩ := fits_cons.mp hfits
    rw [hleft, ← hlen] at hsmall
    obtain ⟨s', hr, hend, hmid⟩ := decoding_run hblocks hdec hsmall
    obtain ⟨q, hq, rfl⟩ := mem_recv hx hr
    by_cases hnil : rest = []
    · subst hnil
      refine ⟨q, .cons hq (.nil q), hend, fun ht => ?_⟩
      obtain ⟨_, _, hdec', _⟩ := hmid ht
      exact hdec'.status
    · obtain ⟨bs', hsuf, hdec', hleft', hself⟩ := hmid
        (fun e => flatten_ne_nil hnil hrest (List.append_eq_nil_iff.mp e).1)
      rw [← hlen] at hfits'
      obtain ⟨q', hq', h1, h2⟩ := ih hrest hnil (fun y hy => hblocks y (hsuf.subset hy)) hdec' hself
        ((fits_left hleft' rest).mp hfits')
      exact ⟨q', .cons hq hq', h1, h2⟩

/-! ## `2^31` buffered bytes -/

/-- in the middle of a body, with a buffer too long for an `int` -/
structure Big (body : Bytes) (bs : List Bytes) (t : Bytes) (s : Mem) : Prop where
  decoding : Decoding body bs t s
  blocks : ∀ x ∈ bs, x ≠ [] ∧ x.length < 2 ^ 31
  total : bs.flatten.length < 2 ^ 31
  big : 2 ^ 31 ≤ s.2.length_

/-- **No iteration gets the buffer below `2^31` bytes**: a line end is found only from `2^32` bytes
on, and one frame is too short to get from there below `2^31`. -/
theorem big_turn {s u : Mem} (h : Big body bs t s) (hu : (turnOn rawOverload s).Goes u) :
    ∃ bs', Big body bs' t u := by
  obtain ⟨hdec, hblocks, htotal, hbig⟩ := h
  have hL := hdec.length
  cases bs with
  | nil =>
    have h5 : (coded []).length = 5 := rfl
    omega
  | cons x bs =>
    have hbs : ∀ y ∈ bs, y ≠ [] ∧ y.length < 2 ^ 31 :=
      fun y hy => hblocks y (List.mem_cons_of_mem _ hy)
    have hx := hblocks x List.mem_cons_self
    rcases decoding_block hx hdec with ⟨e, _⟩ | ⟨e, _⟩ | ⟨s', e, hs', hlen, hsign⟩
    · rw [e] at hu
      exact absurd hu (by simp [Turn.Goes])
    · rw [e] at hu
      rw [hu.of_ret]
      exact ⟨_, hdec, hblocks, htotal, hbig⟩
    · rw [e] at hu
      rw [idle_goes hu]
      rw [List.flatten_cons, List.length_append] at htotal
      refine ⟨bs, hs', hbs, by omega, ?_⟩
      have h32 : 2 ^ 32 ≤ s.2.length_ := by
        by_contra hlt
        have := toInt32_neg hbig (by omega)
        omega
      have h1 := sizeLine_length hx.2
      have h2 := coded_le hbs
      rw [coded_length] at hL
      unfold frameLen at hlen hL
      show 2 ^ 31 ≤ s'.2.length_
      omega

theorem big_returns {s r : Mem} (hr : Returns (turnOn rawOverload) s r) (h : Big body bs t s) :
    ∃ bs', Big body bs' t r := by
  induction hr generalizing bs with
  | ret e => exact big_turn h (Or.inr e)
  | again e _ ih =>
    obtain ⟨bs', h'⟩ := big_turn h (Or.inl e)
    exact ih h'

theorem big_calls {pieces : List Bytes} (hpieces : ∀ x ∈ pieces, x ≠ []) {p q : Parser}
    (hq : RecvAll p pieces q) (h : Big body bs (pieces.flatten ++ t) p.mem) :
    q.recvstatus_ = .kBody := by
  induction hq generalizing bs with
  | nil => exact h.decoding.status
  | @cons p q r x rest e _ ih =>
    obtain ⟨hdec, hblocks, htotal, hbig⟩ := h
    rw [List.flatten_cons, List.append_assoc] at hdec
    obtain ⟨hdec', hlen⟩ := decoding_write hdec
    have hbig' : 2 ^ 31 ≤ p.recvbuf_.length_ := hbig
    obtain ⟨bs', h'⟩ := big_returns (recv_mem (hpieces x List.mem_cons_self) e)
      ⟨hdec', hblocks, htotal, by show _ ≤ (p.recvbuf_.write x).length_; omega⟩
    exact ih (fun y hy => hpieces y (List.mem_cons_of_mem _ hy)) h'

/-- **A call that sees `2^31` buffered bytes** keeps the body from its end. -/
theorem not_ended {pieces : List Bytes} (hpieces : ∀ x ∈ pieces, x ≠ []) {p q : Parser}
    (hblocks : ∀ x ∈ bs, x ≠ [] ∧ x.length < 2 ^ 31) (htotal : bs.flatten.length < 2 ^ 31)
    (h : Decoding body bs pieces.flatten p.mem)
    (hleft : left bs p.recvbuf_.length_ = p.recvbuf_.length_)
    (hfits : ¬ Fits bs p.recvbuf_.length_ pieces) (hq : RecvAll p pieces q) :
    q.recvstatus_ = .kBody := by
  induction hq generalizing bs with
  | nil => exact h.status
  | @cons p q r x rest e hall ih =>
    have hrest : ∀ y ∈ rest, y ≠ [] := fun y hy => hpieces y (List.mem_cons_of_mem _ hy)
    rw [List.flatten_cons] at h
    obtain ⟨hdec, hlen⟩ := decoding_write h
    have hx := hpieces x List.mem_cons_self
    by_cases hsmall : (p.recvbuf_.write x).length_ < 2 ^ 31
    · have hnil : rest ≠ [] := by
        rintro rfl
        exact hfits (fits_cons.mpr ⟨by omega, fits_nil _ _⟩)
      obtain ⟨s', hr, -, hmid⟩ := decoding_run hblocks hdec hsmall
      obtain ⟨bs', hsuf, hdec', hleft', hself⟩ := hmid (flatten_ne_nil hnil hrest)
      obtain ⟨q', hq', rfl⟩ := mem_recv hx hr
      cases e.det hq'
      refine ih hrest (fun y hy => hblocks y (hsuf.subset hy)) ?_ hdec' hself (fun hf => ?_)
      · obtain ⟨u, rfl⟩ := hsuf
        rw [List.flatten_append, List.length_append] at htotal
        omega
      · have hf' := (fits_left hleft' rest).mpr hf
        refine hfits (fits_cons.mpr ⟨by omega, ?_⟩)
        rw [← hlen]
        exact hf'
    · have hbig : Big body bs rest.flatten (p.toCore, p.recvbuf_.write x) :=
        ⟨hdec, hblocks, htotal, Nat.le_of_not_lt hsmall⟩
      obtain ⟨bs', h'⟩ := big_returns (recv_mem hx e) hbig
      exact big_calls (t := []) hrest hall (by rwa [List.append_nil])

end

theorem decoding_start {p : Parser} {r : BodyReceiver} {blocks : List Bytes} {t : Bytes}
    (hst : p.recvstatus_ = .kBody) (hc : p.headfields_.isTransferEncodingChunked = true)
    (hr : p.bodyreceiver_ = some r) (h0 : p.recvbuf_.length_ = 0) (ht : p.recvbuf_.Tail)
    (h : t = coded blocks) : Decoding (r.body ++ blocks.flatten) blocks t p.mem := by
  have hnil : p.recvbuf_.data = [] := by
    unfold AutoBuffer.data
    rw [h0, List.take_zero]
  exact ⟨hst, hc, ⟨r, hr, rfl⟩, by show p.recvbuf_.data ++ t = _; rw [hnil, List.nil_append, h], ht⟩

theorem left_zero (blocks : List Bytes) : left blocks 0 = 0 := by
  cases blocks with
  | nil => rfl
  | cons x bs =>
    unfold left
    rw [if_pos (by unfold frameLen; omega)]

/-- **Chunked coding round trip.**  Non-empty blocks of fewer than `2^31` bytes together, framed by
the provider and handed to a parser in `kBody` in any pieces, come out as they went in, with the
last piece and not before, exactly when no call sees `2^31` buffered bytes. -/
theorem chunked_iff {p : Parser} {r : BodyReceiver} {blocks pieces : List Bytes}
    (hst : p.recvstatus_ = .kBody) (hc : p.headfields_.isTransferEncodingChunked = true)
    (hr : p.bodyreceiver_ = some r) (h0 : p.recvbuf_.length_ = 0) (ht : p.recvbuf_.Tail)
    (hblocks : ∀ x ∈ blocks, x ≠ []) (htotal : blocks.flatten.length < 2 ^ 31)
    (hpieces : ∀ x ∈ pieces, x ≠ []) (hflat : pieces.flatten = (streamBody blocks).data) :
    Delivered p (r.body ++ blocks.flatten) pieces ↔ Fits blocks 0 pieces := by
  have hsmall : ∀ x ∈ blocks, x ≠ [] ∧ x.length < 2 ^ 31 := fun x hx => by
    refine ⟨hblocks x hx, ?_⟩
    have := (List.sublist_flatten_of_mem hx).length_le
    omega
  rw [streamBody_data (fun x hx => (hsmall x hx).2)] at hflat
  have hdec := decoding_start hst hc hr h0 ht hflat
  have hself : left blocks p.recvbuf_.length_ = p.recvbuf_.length_ := by rw [h0, left_zero]
  rw [← h0]
  constructor
  · intro h
    by_contra hfits
    obtain ⟨q, hq, hend⟩ := h.ended
    have hbody := not_ended hpieces hsmall htotal hdec hself hfits hq
    exact absurd (hbody.symm.trans hend.status) (by decide)
  · intro hfits
    refine ⟨?_, fun a c q e hcne hq hend => ?_⟩
    · have hne : pieces ≠ [] := by
        rintro rfl
        have h5 := coded_pos blocks
        rw [← hflat] at h5
        exact absurd h5 (by decide)
      obtain ⟨q, hq, hend, -⟩ := decoding_calls (t := []) hpieces hne hsmall
        (by rwa [List.append_nil]) hself hfits
      exact ⟨q, hq, hend rfl⟩
    · subst e
      have ha : ∀ x ∈ a, x ≠ [] := fun x hx => hpieces x (List.mem_append_left _ hx)
      have hcflat := flatten_ne_nil hcne (fun x hx => hpieces x (List.mem_append_right _ hx))
      by_cases hnil' : a = []
      · subst hnil'
        cases hq
        exact absurd (hst.symm.trans hend) (by decide)
      · rw [List.flatten_append] at hdec
        obtain ⟨q', hq', -, hbody⟩ := decoding_calls ha hnil' hsmall hdec hself
          (fun a' x c' e' => hfits a' x (c' ++ c) (by rw [e']; simp))
        cases hq.det hq'
        exact absurd ((hbody hcflat).symm.trans hend) (by decide)

def chunkedParser : Parser :=
  { recvstatus_ := .kBody
    headfields_ := HeaderFields.headerFiled {} HeaderFields.kStringTransferEncoding
      HeaderFields.kStringChunked }

theorem chunked_iff_hello :
    Delivered chunkedParser [ascii "hello", ascii " world"].flatten
      [ascii "5\r\nhel", ascii "lo\r\n6\r", ascii "\n world\r\n0", ascii "\r\n\r\n"] :=
  (@chunked_iff chunkedParser {} [ascii "hello", ascii " world"]
    [ascii "5\r\nhel", ascii "lo\r\n6\r", ascii "\n world\r\n0", ascii "\r\n\r\n"]
    rfl (by decide) rfl rfl AutoBuffer.Tail.new (by decide) (by decide) (by decide)
    (by decide +kernel)).mpr
    (fits_cons.mpr ⟨by decide, fits_cons.mpr ⟨by decide, fits_cons.mpr ⟨by decide,
      fits_cons.mpr ⟨by decide, fits_nil _ _⟩⟩⟩⟩)

/-- **A block of `2^31 - 1` bytes in one piece**: the parser stays in `kBody`. -/
theorem chunked_big : ∃ blocks pieces, (∀ x ∈ blocks, x ≠ []) ∧ blocks.flatten.length < 2 ^ 31 ∧
    (∀ x ∈ pieces, x ≠ []) ∧ pieces.flatten = (streamBody blocks).data ∧
    ¬ Delivered chunkedParser blocks.flatten pieces := by
  obtain ⟨x, hx⟩ : ∃ x : Bytes, x.length = 2 ^ 31 - 1 :=
    ⟨List.replicate _ 0, List.length_replicate⟩
  have hne : x ≠ [] := fun e => by rw [e] at hx; exact absurd hx (by decide)
  have hblocks : ∀ y ∈ [x], y ≠ [] ∧ y.length < 2 ^ 31 := fun y hy => by
    rw [List.mem_singleton.mp hy]
    exact ⟨hne, by omega⟩
  have hdata := streamBody_data (fun y hy => (hblocks y hy).2)
  have htotal : [x].flatten.length < 2 ^ 31 := by
    rw [List.flatten_singleton]
    omega
  have hpiece : ∀ y ∈ [coded [x]], y ≠ [] := fun y hy => by
    rw [List.mem_singleton.mp hy]
    exact List.length_pos_iff.mp (coded_pos [x])
  refine ⟨[x], [coded [x]], fun y hy => (hblocks y hy).1, htotal, hpiece, ?_, fun h => ?_⟩
  · rw [List.flatten_singleton, hdata]
  · obtain ⟨q, hq, hend⟩ := h.ended
    have hdec := decoding_start (p := chunkedParser) (r := {}) rfl (by decide) rfl rfl
      AutoBuffer.Tail.new (List.flatten_singleton (l := coded [x]))
    have hbody := not_ended hpiece hblocks htotal hdec (left_zero [x]) (fun hf => ?_) hq
    · exact absurd (hbody.symm.trans hend.status) (by decide)
    · have h1 := (fits_cons.mp hf).1
      have h2 := coded_length x []
      unfold frameLen at h2
      omega

end Http
