import LearnDiary.Http.Machine

/-!
# The raw header of a message (`Parser::HeaderBuffer`, comm/http.cc)

`headerbuf_` is written on entry of `Recv`, at the first line and at the header end.  The entry
writes what the other two write once more; the three agree only where the entry has seen the header
end before the first line is parsed.

* `line_turn`, `fields_turn`   what the loop writes;
* `capture_write`              what the entry writes;
* `HeaderStage.step`           where the buffer stands after one more piece.
-/

namespace Http
open Loop

/-- the first line ends at `f`, the header at `h`, and there is a field line between -/
structure Header (w : Bytes) (f h : Nat) : Prop where
  line : findC crlf w = some f
  blank : findC crlf2 w = some h
  field : f < h

namespace Header
variable {w u t : Bytes} {f h : Nat} (hw : Header w f h) (hu : u ++ t = w)

include hw

theorem line_le : f + 2 ≤ h := by
  have h1 := Find.findUpTo_isPrefix notNul hw.line
  have h2 := Find.findUpTo_isPrefix notNul hw.blank
  have hne : h ≠ f + 1 := by
    rintro rfl
    obtain ⟨a, ha⟩ := h1
    obtain ⟨b, hb⟩ := h2
    have e : w.drop (f + 1) = 10 :: a := by
      rw [← List.drop_drop, ← ha]
      rfl
    rw [e] at hb
    cases hb
  have h3 := hw.field
  omega

include hu

theorem line_found {pos : Nat} (hp : findC crlf u = some pos) : pos = f := by
  have h1 : findC crlf (u ++ t) = some pos := Find.findUpTo_append notNul t hp
  rw [hu, hw.line] at h1
  exact (Option.some.inj h1).symm

theorem line_seen (hl : f + 2 ≤ u.length) : findC crlf u = some f := by
  have h1 := hw.line
  rw [← hu] at h1
  exact Find.findUpTo_front notNul h1 hl

theorem blank_found {pos : Nat} (hp : findC crlf2 u = some pos) : pos = h := by
  have h1 : findC crlf2 (u ++ t) = some pos := Find.findUpTo_append notNul t hp
  rw [hu, hw.blank] at h1
  exact (Option.some.inj h1).symm

theorem blank_seen (hl : h + 4 ≤ u.length) : findC crlf2 u = some h := by
  have h1 := hw.blank
  rw [← hu] at h1
  exact Find.findUpTo_front notNul h1 hl

theorem rest_found (hl : f + 2 ≤ u.length) {pos : Nat} (hp : findC crlf2 (u.drop (f + 2)) = some pos) :
    pos = h - (f + 2) := by
  have h1 := Find.findUpTo_append notNul t hp
  rw [← List.drop_append_of_le_length hl, hu,
    Find.findUpTo_drop notNul hw.blank hw.line_le] at h1
  exact (Option.some.inj h1).symm

theorem rest_seen (hl : h + 4 ≤ u.length) : findC crlf2 (u.drop (f + 2)) = some (h - (f + 2)) :=
  Find.findUpTo_drop notNul (hw.blank_seen hu hl) hw.line_le

end Header

/-! ## the writes of the loop -/

/-- the scan for a line end gives up with an error once it has seen too much -/
theorem firstLine_cases {c : Core} {b : AutoBuffer} {x : Scan} (h : firstLine c b = x) :
    x = .wild ∨
    (∃ c', x = .ret c' ∧ c'.recvstatus_ = .kFirstLineError) ∨
    (search b crlf = .null ∧ b.length_ ≤ 8 * 1024 ∧ x = .ret { c with recvstatus_ := .kFirstLine }) ∨
    ∃ pos c', x = .hit pos c' ∧ search b crlf = .found pos := by
  unfold firstLine at h
  split at h
  · exact Or.inl h.symm
  · rename_i hs
    split at h
    · exact Or.inr (Or.inl ⟨_, h.symm, rfl⟩)
    · rename_i hlen
      exact Or.inr (Or.inr (Or.inl ⟨hs, Nat.not_lt.mp hlen, h.symm⟩))
  · rename_i pos hs
    split at h
    · exact Or.inr (Or.inr (Or.inr ⟨pos, _, h.symm, hs⟩))
    · exact Or.inr (Or.inl ⟨_, h.symm, rfl⟩)

theorem headerFields_cases {c : Core} {b : AutoBuffer} {x : Scan} (h : headerFields c b = x) :
    x = .wild ∨
    (∃ c', x = .ret c' ∧ c'.recvstatus_ = .kHeaderFieldsError) ∨
    (search b crlf2 = .null ∧ b.length_ ≤ 128 * 1024 ∧ x = .ret c) ∨
    ∃ pos c', x = .hit pos c' ∧ search b crlf2 = .found pos ∧ c'.recvstatus_ = .kBody := by
  unfold headerFields at h
  split at h
  · exact Or.inl h.symm
  · rename_i hs
    split at h
    · exact Or.inr (Or.inl ⟨_, h.symm, rfl⟩)
    · rename_i hlen
      exact Or.inr (Or.inr (Or.inl ⟨hs, Nat.not_lt.mp hlen, h.symm⟩))
  · rename_i pos hs
    split at h
    · exact Or.inr (Or.inr (Or.inr ⟨pos, _, h.symm, hs, rfl⟩))
    · exact Or.inr (Or.inl ⟨_, h.symm, rfl⟩)

/-- the statuses before the first line is parsed -/
def AtLine (p : Parser) : Prop := p.recvstatus_ = .kStart ∨ p.recvstatus_ = .kFirstLine

theorem recvTurn_line {p q : Parser} (hs : AtLine p) (hg : (recvTurn p).Goes q) :
    (∃ c, firstLine p.toCore p.recvbuf_ = .ret c ∧ recvTurn p = .ret { p with toCore := c } ∧
      q = { p with toCore := c }) ∨
    ∃ pos c, firstLine p.toCore p.recvbuf_ = .hit pos c ∧ recvTurn p = .again q ∧
      q.headerbuf_ = p.headerbuf_.write (p.recvbuf_.parray_.take (pos + 2)) ∧
      q.response_header_ready_ = p.response_header_ready_ ∧
      (search p.recvbuf_ crlf2 = .found pos ∨
        (q.recvstatus_ = .kHeaderFields ∧ q.recvbuf_ = p.recvbuf_.move (-((pos + 2 : Nat) : Int)))) := by
  unfold recvTurn at hg ⊢
  cases hf : firstLine p.toCore p.recvbuf_ with
  | wild =>
    rcases hs with e | e
    all_goals
      simp only [e, hf] at hg
      rcases hg with h | h <;> cases h
  | ret c =>
    rcases hs with e | e
    all_goals
      simp only [e, hf] at hg ⊢
      exact Or.inl ⟨c, rfl, rfl, hg.of_ret⟩
  | hit pos c =>
    rcases hs with e | e
    all_goals
      simp only [e, hf] at hg ⊢
      refine Or.inr ⟨pos, c, rfl, ?_⟩
      cases h2 : search p.recvbuf_ crlf2 with
      | wild =>
        simp only [h2] at hg
        rcases hg with h | h <;> cases h
      | null =>
        simp only [h2] at hg ⊢
        rw [if_neg nofun] at hg ⊢
        rw [hg.of_again]
        exact ⟨rfl, rfl, rfl, Or.inr ⟨rfl, rfl⟩⟩
      | found pos2 =>
        simp only [h2] at hg ⊢
        by_cases hp : Search.found pos2 = .found pos
        · rw [if_pos hp] at hg ⊢
          rw [hg.of_again]
          exact ⟨rfl, rfl, rfl, Or.inl hp⟩
        · rw [if_neg hp] at hg ⊢
          rw [hg.of_again]
          exact ⟨rfl, rfl, rfl, Or.inr ⟨rfl, rfl⟩⟩

theorem recvTurn_fields {p q : Parser} (hs : p.recvstatus_ = .kHeaderFields)
    (hg : (recvTurn p).Goes q) :
    (∃ c, headerFields p.toCore p.recvbuf_ = .ret c ∧ recvTurn p = .ret { p with toCore := c } ∧
      q = { p with toCore := c }) ∨
    ∃ pos c, headerFields p.toCore p.recvbuf_ = .hit pos c ∧ recvTurn p = .again q ∧
      q.headerbuf_ = p.headerbuf_.write (p.recvbuf_.parray_.take (pos + 4)) ∧ q.toCore = c := by
  unfold recvTurn at hg ⊢
  simp only [hs] at hg ⊢
  cases hf : headerFields p.toCore p.recvbuf_ with
  | wild =>
    rw [hf] at hg
    rcases hg with h | h <;> cases h
  | ret c =>
    rw [hf] at hg
    exact Or.inl ⟨c, rfl, rfl, hg.of_ret⟩
  | hit pos c =>
    rw [hf] at hg
    rw [hg.of_again]
    exact Or.inr ⟨pos, c, rfl, rfl, rfl, rfl⟩

def Past (p : Parser) : Prop := TRecvStatus.kBody.toNat ≤ p.recvstatus_.toNat

theorem bodyTurn_past {c : Core} {b : AutoBuffer} {g : Nat} {t : Mem}
    (hs : c.recvstatus_ = .kBody) (hg : (bodyTurn c b g).Goes t) :
    TRecvStatus.kBody.toNat ≤ t.1.recvstatus_.toNat := by
  have hbody : TRecvStatus.kBody.toNat ≤ c.recvstatus_.toNat := by rw [hs]
  cases hr : c.bodyreceiver_ with
  | none =>
    unfold bodyTurn at hg
    rw [hr] at hg
    rw [idle_goes hg]
    exact hbody
  | some r =>
    cases bodyTurn_goes hr hg with
    | stay st _ _ hst =>
      rcases hst with rfl | rfl
      · exact hbody
      · exact Nat.le_succ 5
    | append => exact hbody
    | last => exact Nat.le_add_right 5 2
    | fixed st _ _ hst =>
      rcases hst with rfl | rfl
      · exact hbody
      · exact Nat.le_add_right 5 2

theorem recvTurn_past {p q : Parser} (hs : Past p) (hg : (recvTurn p).Goes q) :
    Past q ∧ q.headerbuf_ = p.headerbuf_ := by
  unfold Past at hs ⊢
  cases e : p.recvstatus_ with
  | kStart | kFirstLine | kFirstLineError | kHeaderFields | kHeaderFieldsError =>
    rw [e] at hs
    exact absurd hs (by decide)
  | kBody =>
    unfold recvTurn at hg
    simp only [e] at hg
    cases hb : bodyTurn p.toCore p.recvbuf_ p.recvbuf_.length_ with
    | wild =>
      rw [hb] at hg
      rcases hg with h | h <;> cases h
    | again t =>
      rw [hb] at hg
      rw [Turn.Goes.of_again hg]
      exact ⟨bodyTurn_past e (Or.inl hb), rfl⟩
    | ret t =>
      rw [hb] at hg
      rw [Turn.Goes.of_ret hg]
      exact ⟨bodyTurn_past e (Or.inr hb), rfl⟩
  | kBodyError =>
    unfold recvTurn at hg
    simp only [e] at hg
    rw [hg.of_again, e]
    exact ⟨Nat.le_succ 5, rfl⟩
  | kEnd =>
    unfold recvTurn at hg
    simp only [e] at hg
    rw [hg.of_ret, e]
    exact ⟨Nat.le_add_right 5 2, rfl⟩

theorem returns_past {p q : Parser} (hs : Past p) (h : Returns recvTurn p q) :
    Past q ∧ q.headerbuf_ = p.headerbuf_ := by
  induction h with
  | ret e => exact recvTurn_past hs (Or.inr e)
  | again e _ ih =>
    obtain ⟨h1, h2⟩ := recvTurn_past hs (Or.inl e)
    obtain ⟨h3, h4⟩ := ih h1
    exact ⟨h3, h4.trans h2⟩

theorem not_returns_error {p q : Parser}
    (hs : p.recvstatus_ = .kFirstLineError ∨ p.recvstatus_ = .kHeaderFieldsError) :
    ¬ Returns recvTurn p q := by
  have hspin : recvTurn p = .again p := by
    unfold recvTurn
    rcases hs with e | e <;> simp only [e]
  intro h
  exact not_stops_of_spin hspin h.stops

section
variable {w u t : Bytes} {f h : Nat} (hw : Header w f h) (hu : u ++ t = w) {p q : Parser}

include hw hu

theorem line_turn (hs : AtLine p) (hd : p.recvbuf_.data = u) (hg : (recvTurn p).Goes q) :
    q.recvstatus_ = .kFirstLineError ∨
    (recvTurn p = .ret q ∧ u.length < f + 2 ∧ q.recvstatus_ = .kFirstLine ∧
      q.recvbuf_ = p.recvbuf_ ∧ q.headerbuf_ = p.headerbuf_ ∧
      q.response_header_ready_ = p.response_header_ready_) ∨
    (recvTurn p = .again q ∧ f + 2 ≤ u.length ∧ q.recvstatus_ = .kHeaderFields ∧
      q.recvbuf_.data = u.drop (f + 2) ∧ q.headerbuf_ = p.headerbuf_.write (w.take (f + 2)) ∧
      q.response_header_ready_ = p.response_header_ready_) := by
  have hlen : p.recvbuf_.length_ = u.length := by rw [← hd, AutoBuffer.data_length]
  rcases recvTurn_line hs hg with ⟨c, hf, hr, rfl⟩ | ⟨pos, c, hf, ha, hhb, hrd, hnext⟩
  · rcases firstLine_cases hf with h1 | ⟨c', h1, herr⟩ | ⟨hnull, hsmall, h1⟩ | ⟨pos, c', h1, -⟩
    · cases h1
    · cases h1
      exact Or.inl herr
    · cases h1
      refine Or.inr (Or.inl ⟨hr, ?_, rfl, rfl, rfl, rfl⟩)
      -- a line end that is there is found in so few bytes
      by_contra hlt
      rw [search_eq crlf_ne (by omega), hd, hw.line_seen hu (Nat.not_lt.mp hlt)] at hnull
      cases hnull
    · cases h1
  · rcases firstLine_cases hf with h1 | ⟨c', h1, -⟩ | ⟨-, -, h1⟩ | ⟨pos', c', h1, hfound⟩
    · cases h1
    · cases h1
    · cases h1
    · cases h1
      have hpos := hw.line_found hu (by rw [← hd]; exact search_found crlf_ne hfound)
      have hle := search_found_le crlf_ne hfound
      have hlen2 : crlf.length = 2 := rfl
      rw [hpos] at hhb hnext hle
      have htake : p.recvbuf_.parray_.take (f + 2) = w.take (f + 2) := by
        rw [take_data _ (by omega), hd, ← hu, List.take_append_of_le_length (by omega)]
      refine Or.inr (Or.inr ⟨ha, by omega, ?_, ?_, by rw [← htake]; exact hhb, hrd⟩)
      all_goals
        rcases hnext with h2 | ⟨h2, h3⟩
      · have := hw.blank_found hu (by rw [← hd]; exact search_found crlf2_ne h2)
        have := hw.field
        omega
      · exact h2
      · have := hw.blank_found hu (by rw [← hd]; exact search_found crlf2_ne h2)
        have := hw.field
        omega
      · rw [h3, AutoBuffer.move_data, hd]

theorem fields_turn (hs : p.recvstatus_ = .kHeaderFields) (hl : f + 2 ≤ u.length)
    (hd : p.recvbuf_.data = u.drop (f + 2)) (hg : (recvTurn p).Goes q) :
    q.recvstatus_ = .kHeaderFieldsError ∨
    (recvTurn p = .ret q ∧ u.length < h + 4 ∧ q = p) ∨
    (recvTurn p = .again q ∧ h + 4 ≤ u.length ∧ q.recvstatus_ = .kBody ∧
      q.headerbuf_ = p.headerbuf_.write ((w.drop (f + 2)).take (h + 4 - (f + 2)))) := by
  have hlen : p.recvbuf_.length_ = u.length - (f + 2) := by
    rw [← AutoBuffer.data_length, hd, List.length_drop]
  have hline := hw.line_le
  rcases recvTurn_fields hs hg with ⟨c, hf, hr, rfl⟩ | ⟨pos, c, hf, ha, hhb, rfl⟩
  · rcases headerFields_cases hf with h1 | ⟨c', h1, herr⟩ | ⟨hnull, hsmall, h1⟩ | ⟨pos, c', h1, -, -⟩
    · cases h1
    · cases h1
      exact Or.inl herr
    · cases h1
      refine Or.inr (Or.inl ⟨hr, ?_, rfl⟩)
      by_contra hlt
      rw [search_eq crlf2_ne (by omega), hd, hw.rest_seen hu (Nat.not_lt.mp hlt)] at hnull
      cases hnull
    · cases h1
  · rcases headerFields_cases hf with h1 | ⟨c', h1, -⟩ | ⟨-, -, h1⟩ | ⟨pos', c', h1, hfound, hbody⟩
    · cases h1
    · cases h1
    · cases h1
    · cases h1
      have hpos := hw.rest_found hu hl (by rw [← hd]; exact search_found crlf2_ne hfound)
      have hle := search_found_le crlf2_ne hfound
      have hlen4 : crlf2.length = 4 := rfl
      have htake : p.recvbuf_.parray_.take (pos + 4) = (w.drop (f + 2)).take (h + 4 - (f + 2)) := by
        rw [take_data _ (by omega), hd, ← hu, List.drop_append_of_le_length hl,
          List.take_append_of_le_length (by rw [List.length_drop]; omega)]
        congr 1
        omega
      exact Or.inr (Or.inr ⟨ha, by omega, hbody, by rw [← htake]; exact hhb⟩)

end

/-! ## the write on entry -/

theorem capture_skip {p : Parser} (d : Bytes)
    (h : 4096 ≤ p.headerbuf_.length_ ∨ p.response_header_ready_ = true ∨ Past p) :
    capture p d = p := by
  unfold capture
  rw [if_neg]
  rintro ⟨h1, h2, h3⟩
  rcases h with h | h | h
  · omega
  · rw [h] at h3
    cases h3
  · unfold Past at h
    omega

/-- the entry writes at most 4096 bytes, and cuts the buffer behind the header end if it sees one -/
theorem capture_write {p : Parser} {d : Bytes} (hs : p.recvstatus_.toNat < TRecvStatus.kBody.toNat)
    (hl : p.headerbuf_.length_ < 4096) (hr : p.response_header_ready_ = false)
    (hpos : p.headerbuf_.pos_ = p.headerbuf_.length_) {b : AutoBuffer}
    (hb : b = p.headerbuf_.write (d.take 4096)) :
    (∃ pos, 4 < b.length_ ∧ findC crlf2 b.data = some pos ∧
      (capture p d).headerbuf_.data = b.data.take (pos + 4) ∧ (capture p d).headerbuf_.pos_ = 0 ∧
      (capture p d).response_header_ready_ = true) ∨
    ((b.length_ ≤ 4 ∨ findC crlf2 b.data = none) ∧ (capture p d).headerbuf_ = b ∧
      (capture p d).response_header_ready_ = false) := by
  have hlen : b.length_ = max (p.headerbuf_.pos_ + (d.take 4096).length) p.headerbuf_.length_ := by
    rw [hb]
    rfl
  have htake : (d.take 4096).length ≤ 4096 := by
    rw [List.length_take]
    exact Nat.min_le_left _ _
  have hsearch := search_eq crlf2_ne (b := b) (by omega)
  unfold capture
  rw [if_pos ⟨hs, hl, hr⟩, ← hb]
  dsimp only
  by_cases h4 : 4 < b.length_
  · rw [if_pos h4, hsearch]
    cases hf : findC crlf2 b.data with
    | none => exact Or.inr ⟨Or.inr rfl, rfl, hr⟩
    | some pos =>
      have hle := findC_crlf2_le hf
      have hcap : pos + 4 ≤ b.capacity := by
        have h1 : b.length_ ≤ b.capacity := b.length_le
        rw [b.data_length] at hle
        omega
      left
      refine ⟨pos, h4, rfl, ?_⟩
      show _ ∧ _ ∧ _
      unfold Search.ofOption
      dsimp only
      rw [dif_pos hcap]
      refine ⟨?_, rfl, rfl⟩
      show b.parray_.take (pos + 4) = b.data.take (pos + 4)
      exact take_data b (by rw [b.data_length] at hle; exact hle)
  · rw [if_neg h4]
    exact Or.inr ⟨Or.inl (Nat.not_lt.mp h4), rfl, hr⟩

/-! ## writes over what stands there, and behind it -/

theorem write_same {b : AutoBuffer} {d : Bytes} {n : Nat} (hd : d = (b.data.drop b.pos_).take n) :
    (b.write d).data = b.data := by
  have hdrop : b.data.drop (b.pos_ + d.length) = (b.data.drop b.pos_).drop d.length := by
    rw [List.drop_drop]
  have htake : d = (b.data.drop b.pos_).take d.length := by
    conv_lhs => rw [hd]
    rw [hd, List.take_eq_take_iff, List.length_take]
    omega
  rw [AutoBuffer.write_data_eq, hdrop, List.append_assoc]
  conv_lhs =>
    rw [htake, List.length_take]
  rw [Nat.min_eq_left (by rw [hd, List.length_take, List.length_drop]; omega),
    List.take_append_drop, List.take_append_drop]

/-! ## the piece that completes the header -/

/-- one piece completes the first line and the header, within its first 4096 bytes, and fewer than
4096 bytes came before it -/
def OnePiece (f h : Nat) (pieces : List Bytes) : Prop :=
  ∃ pre d post, pieces = pre ++ d :: post ∧ pre.flatten.length < f + 2 ∧
    pre.flatten.length < 4096 ∧ h + 4 ≤ pre.flatten.length + min d.length 4096

theorem append_singleton_eq {α : Type} {l pre post : List α} {a d : α}
    (h : l ++ [a] = pre ++ d :: post) :
    (pre = l ∧ d = a) ∨ ∃ post', l = pre ++ d :: post' := by
  rcases List.eq_nil_or_concat post with rfl | ⟨post', x, rfl⟩
  · obtain ⟨h1, h2⟩ := List.append_inj' h rfl
    cases h2
    exact Or.inl ⟨h1.symm, rfl⟩
  · right
    refine ⟨post', ?_⟩
    have e : pre ++ d :: (post'.concat x) = (pre ++ d :: post') ++ [x] := by
      rw [List.concat_eq_append]
      simp
    rw [e] at h
    exact (List.append_inj' h rfl).1

theorem onePiece_more {f h : Nat} {fed : List Bytes} (d : Bytes) (hl : f + 2 ≤ fed.flatten.length) :
    OnePiece f h (fed ++ [d]) ↔ OnePiece f h fed := by
  constructor
  · rintro ⟨pre, d', post, e, h1, h2, h3⟩
    rcases append_singleton_eq e with ⟨rfl, -⟩ | ⟨post', e'⟩
    · omega
    · exact ⟨pre, d', post', e', h1, h2, h3⟩
  · rintro ⟨pre, d', post, rfl, h1, h2, h3⟩
    exact ⟨pre, d', post ++ [d], by simp, h1, h2, h3⟩

theorem onePiece_last {f h : Nat} {fed : List Bytes} (d : Bytes) (hfh : f ≤ h)
    (hl : fed.flatten.length < f + 2) : OnePiece f h (fed ++ [d]) ↔
      fed.flatten.length < 4096 ∧ h + 4 ≤ fed.flatten.length + min d.length 4096 := by
  constructor
  · rintro ⟨pre, d', post, e, h1, h2, h3⟩
    rcases append_singleton_eq e with ⟨rfl, rfl⟩ | ⟨post', rfl⟩
    · exact ⟨h2, h3⟩
    · rw [List.flatten_append, List.flatten_cons, List.length_append, List.length_append] at hl
      omega
  · rintro ⟨h1, h2⟩
    exact ⟨fed, d, [], rfl, hl, h1, h2⟩

/-! ## the stages of a message -/

/-- where the header buffer stands after the pieces `fed` -/
inductive HeaderStage (w : Bytes) (f h : Nat) (fed : List Bytes) (p : Parser) : Prop where
  | line (status : AtLine p) (recvbuf : p.recvbuf_.data = fed.flatten)
      (short : fed.flatten.length < f + 2) (ready : p.response_header_ready_ = false)
      (pos : p.headerbuf_.pos_ = p.headerbuf_.length_)
      (data : fed.flatten.length < 4096 → p.headerbuf_.data = fed.flatten)
      (full : 4096 ≤ fed.flatten.length → 4096 ≤ p.headerbuf_.length_)
  | fields (status : p.recvstatus_ = .kHeaderFields)
      (recvbuf : p.recvbuf_.data = fed.flatten.drop (f + 2)) (long : f + 2 ≤ fed.flatten.length)
      (pieces : ¬ OnePiece f h fed)
      -- the first line stands twice in it, or it was cut and is written over from its start
      (wrong : (p.response_header_ready_ = true ∧ p.headerbuf_.pos_ = 0) ∨
        (p.response_header_ready_ = false ∧ p.headerbuf_.pos_ = p.headerbuf_.length_ ∧
          f + 2 < p.headerbuf_.length_))
  | past (status : Past p) (long : f + 2 ≤ fed.flatten.length)
      (data : p.headerbuf_.data = w.take (h + 4) ↔ OnePiece f h fed)
  | error (status : p.recvstatus_ = .kFirstLineError ∨ p.recvstatus_ = .kHeaderFieldsError)

section
variable {w t : Bytes} {f h : Nat} (hw : Header w f h) {fed : List Bytes} {d : Bytes}
  (hu : (fed ++ [d]).flatten ++ t = w) {p q : Parser}

theorem flatten_snoc (fed : List Bytes) (d : Bytes) : (fed ++ [d]).flatten = fed.flatten ++ d := by
  rw [List.flatten_append, List.flatten_cons, List.flatten_nil, List.append_nil]

include hw hu

/-- the entry of the call that may complete the first line: the header is captured as it is, or
there is something in front of what the loop will write -/
theorem enter_line (hd : d ≠ []) (hs : AtLine p) (hshort : fed.flatten.length < f + 2)
    (hr : p.response_header_ready_ = false) (hpos : p.headerbuf_.pos_ = p.headerbuf_.length_)
    (hdata : fed.flatten.length < 4096 → p.headerbuf_.data = fed.flatten)
    (hfull : 4096 ≤ fed.flatten.length → 4096 ≤ p.headerbuf_.length_) :
    ((capture p d).headerbuf_.data = w.take (h + 4) ∧ (capture p d).headerbuf_.pos_ = 0 ∧
      OnePiece f h (fed ++ [d]) ∧ h + 4 ≤ (fed ++ [d]).flatten.length) ∨
    (¬ OnePiece f h (fed ++ [d]) ∧ (capture p d).response_header_ready_ = false ∧
      (capture p d).headerbuf_.pos_ = (capture p d).headerbuf_.length_ ∧
      0 < (capture p d).headerbuf_.length_ ∧
      ((fed ++ [d]).flatten.length < 4096 → (capture p d).headerbuf_.data = (fed ++ [d]).flatten) ∧
      (4096 ≤ (fed ++ [d]).flatten.length → 4096 ≤ (capture p d).headerbuf_.length_)) := by
  have hfh := hw.field
  have hone := onePiece_last d (Nat.le_of_lt hfh) hshort
  have hflat := flatten_snoc fed d
  have hlen : (fed ++ [d]).flatten.length = fed.flatten.length + d.length := by
    rw [hflat, List.length_append]
  have hd0 : 0 < d.length := List.length_pos_iff.mpr hd
  by_cases h4 : 4096 ≤ fed.flatten.length
  · have hl := hfull h4
    rw [capture_skip d (Or.inl hl), hone]
    exact Or.inr ⟨by omega, hr, hpos, by omega, fun h1 => by omega, fun _ => hl⟩
  · have hdat := hdata (by omega)
    have hhl : p.headerbuf_.length_ = fed.flatten.length := by
      rw [← AutoBuffer.data_length, hdat]
    have hearly : p.recvstatus_.toNat < TRecvStatus.kBody.toNat := by
      rcases hs with e | e <;> rw [e] <;> decide
    have hbdata : (p.headerbuf_.write (d.take 4096)).data = fed.flatten ++ d.take 4096 := by
      rw [AutoBuffer.write_data _ _ hpos, hdat]
    have hbend := AutoBuffer.write_end hpos (d.take 4096)
    rw [List.length_take, hhl] at hbend
    have hbw : fed.flatten ++ d.take 4096 ++ (d.drop 4096 ++ t) = w := by
      rw [← hu, hflat, List.append_assoc, ← List.append_assoc (d.take 4096), List.take_append_drop,
        List.append_assoc]
    have hblen : (fed.flatten ++ d.take 4096).length = fed.flatten.length + min 4096 d.length := by
      rw [List.length_append, List.length_take]
    rcases capture_write hearly (by omega) hr hpos rfl with ⟨pos, -, hf, h1, h2, -⟩ | ⟨hnone, h1, h2⟩
    · rw [hbdata] at hf h1
      have hp := hw.blank_found hbw hf
      rw [hp] at hf h1
      have hle := findC_crlf2_le hf
      left
      refine ⟨?_, h2, hone.mpr ⟨by omega, by omega⟩, by omega⟩
      rw [h1, ← hbw, List.take_append_of_le_length hle]
    · right
      rw [h1, h2, hone, hbdata]
      refine ⟨?_, rfl, hbend.1, by omega, ?_, fun _ => by omega⟩
      · rintro ⟨-, h3⟩
        rcases hnone with hn | hn
        · omega
        · rw [hbdata, hw.blank_seen hbw (by omega)] at hn
          cases hn
      · intro h3
        rw [hflat, List.take_of_length_le (by omega)]

/-- the end of the header leaves the buffer right if it was captured before, and wrong if not -/
theorem fields_end (hs : p.recvstatus_ = .kHeaderFields)
    (hl : f + 2 ≤ (fed ++ [d]).flatten.length)
    (hrecv : p.recvbuf_.data = (fed ++ [d]).flatten.drop (f + 2))
    (hbuf : (p.headerbuf_.data = w.take (h + 4) ∧ p.headerbuf_.pos_ = f + 2 ∧
        OnePiece f h (fed ++ [d]) ∧ h + 4 ≤ (fed ++ [d]).flatten.length) ∨
      (¬ OnePiece f h (fed ++ [d]) ∧ ((p.response_header_ready_ = true ∧ p.headerbuf_.pos_ = 0) ∨
        (p.response_header_ready_ = false ∧ p.headerbuf_.pos_ = p.headerbuf_.length_ ∧
          f + 2 < p.headerbuf_.length_))))
    (hret : Returns recvTurn p q) : HeaderStage w f h (fed ++ [d]) q := by
  have hline := hw.line_le
  cases hret with
  | ret e =>
    rcases fields_turn hw hu hs hl hrecv (Or.inr e) with herr | ⟨-, hlt, rfl⟩ | ⟨e', -⟩
    · exact .error (Or.inr herr)
    · rcases hbuf with ⟨-, -, -, hge⟩ | ⟨hone, hwrong⟩
      · omega
      · exact .fields hs hrecv hl hone hwrong
    · rw [e] at e'
      cases e'
  | @again _ p2 _ e hret =>
    rcases fields_turn hw hu hs hl hrecv (Or.inl e) with herr | ⟨e', -, -⟩ | ⟨-, hge, hbody, hhb⟩
    · exact absurd hret (not_returns_error (Or.inr herr))
    · rw [e] at e'
      cases e'
    · obtain ⟨hpast, hkeep⟩ := returns_past (by unfold Past; rw [hbody]) hret
      refine .past hpast hl ?_
      rw [hkeep, hhb]
      have hwlen : h + 4 ≤ w.length := by
        rw [← hu, List.length_append]
        omega
      rcases hbuf with ⟨hdata, hpos, hone, -⟩ | ⟨hone, ⟨-, hpos⟩ | ⟨-, hpos, hlong⟩⟩
      · refine iff_of_true ?_ hone
        rw [write_same (n := h + 4 - (f + 2)), hdata]
        rw [hdata, hpos, List.drop_take, List.take_take, Nat.min_self]
      · -- the fields are written over the start: their end would be the first blank line
        refine iff_of_false ?_ hone
        intro heq
        have h1 : findC crlf2 ((w.drop (f + 2)).take (h + 4 - (f + 2))) = some (h - (f + 2)) := by
          have h2 := Find.findUpTo_drop notNul hw.blank hline
          rw [← List.take_append_drop (h + 4 - (f + 2)) (w.drop (f + 2))] at h2
          refine Find.findUpTo_front notNul h2 ?_
          rw [List.length_take, List.length_drop]
          show h - (f + 2) + 4 ≤ _
          omega
        rw [AutoBuffer.write_data_eq, hpos, List.take_zero, List.nil_append] at heq
        have h3 : findC crlf2 (w.take (h + 4)) = some (h - (f + 2)) := by
          rw [← heq]
          exact Find.findUpTo_append notNul _ h1
        have h4 := hw.blank_found (List.take_append_drop (h + 4) w) h3
        omega
      · refine iff_of_false ?_ hone
        intro heq
        have hlen := (AutoBuffer.write_end hpos ((w.drop (f + 2)).take (h + 4 - (f + 2)))).2
        have h1 := congrArg List.length heq
        rw [AutoBuffer.data_length, hlen, List.length_take, List.length_take, List.length_drop] at h1
        omega

/-- **One more piece.** -/
theorem HeaderStage.step (hd : d ≠ []) (ht : p.recvbuf_.Tail) (hp : HeaderStage w f h fed p)
    (hrecv : Recv p d q) : HeaderStage w f h (fed ++ [d]) q := by
  have hret : Returns recvTurn (enter p d) q := by
    unfold Recv at hrecv
    rwa [if_neg hd] at hrecv
  have hcore : (capture p d).toCore = p.toCore := (capture_core p d).1
  have hstatus : (enter p d).recvstatus_ = p.recvstatus_ := congrArg Core.recvstatus_ hcore
  have hbuf : (enter p d).recvbuf_.data = p.recvbuf_.data ++ d := AutoBuffer.write_data _ _ ht.pos
  have hflat := flatten_snoc fed d
  have hmore : fed.flatten.length ≤ (fed ++ [d]).flatten.length := by
    rw [hflat, List.length_append]
    omega
  have hline := hw.line_le
  cases hp with
  | line hs hrb hshort hr hpos hdata hfull =>
    have hentry := enter_line hw hu hd hs hshort hr hpos hdata hfull
    have hs' : AtLine (enter p d) := by
      unfold AtLine
      rw [hstatus]
      exact hs
    have hrb' : (enter p d).recvbuf_.data = (fed ++ [d]).flatten := by rw [hbuf, hrb, hflat]
    cases hret with
    | ret e =>
      rcases line_turn hw hu hs' hrb' (Or.inr e) with
        herr | ⟨-, hlt, hst, hrq, hhb, hrd⟩ | ⟨e', -⟩
      · exact .error (Or.inl herr)
      · rcases hentry with ⟨-, -, -, hge⟩ | ⟨-, hr1, hp1, -, hd1, hf1⟩
        · omega
        · have hhb : q.headerbuf_ = (capture p d).headerbuf_ := hhb
          have hrd : q.response_header_ready_ = (capture p d).response_header_ready_ := hrd
          rw [← hhb] at hp1 hd1 hf1
          exact .line (Or.inr hst) (by rw [hrq, hrb']) hlt (by rw [hrd, hr1]) hp1 hd1 hf1
      · rw [e] at e'
        cases e'
    | @again _ p2 _ e hret =>
      rcases line_turn hw hu hs' hrb' (Or.inl e) with
        herr | ⟨e', -⟩ | ⟨-, hge, hst, hrb2, hhb, hrd⟩
      · exact absurd hret (not_returns_error (Or.inl herr))
      · rw [e] at e'
        cases e'
      · have hhb : p2.headerbuf_ = (capture p d).headerbuf_.write (w.take (f + 2)) := hhb
        have hrd : p2.response_header_ready_ = (capture p d).response_header_ready_ := hrd
        have hwl : (w.take (f + 2)).length = f + 2 := by
          rw [List.length_take, ← hu, List.length_append]
          omega
        refine fields_end hw hu hst hge hrb2 ?_ hret
        rcases hentry with ⟨hd1, hp1, hone, hlong⟩ | ⟨hone, hr1, hp1, h0, -, -⟩
        · left
          refine ⟨?_, ?_, hone, hlong⟩
          · rw [hhb, write_same (n := f + 2), hd1]
            rw [hd1, hp1, List.drop_zero, List.take_take, Nat.min_eq_left (by omega)]
          · rw [hhb]
            show (capture p d).headerbuf_.pos_ + _ = _
            rw [hp1, hwl, Nat.zero_add]
        · have hend := AutoBuffer.write_end hp1 (w.take (f + 2))
          refine Or.inr ⟨hone, Or.inr ⟨by rw [hrd, hr1], ?_, ?_⟩⟩
          · rw [hhb]
            exact hend.1
          · rw [hhb, hend.2, hwl]
            omega
  | fields hs hrb hlong hone hwrong =>
    have hone' : ¬ OnePiece f h (fed ++ [d]) := by rwa [onePiece_more d hlong]
    have hrb' : (enter p d).recvbuf_.data = (fed ++ [d]).flatten.drop (f + 2) := by
      rw [hbuf, hrb, hflat, List.drop_append_of_le_length hlong]
    refine fields_end hw hu (by rw [hstatus, hs]) (by omega) hrb' (Or.inr ⟨hone', ?_⟩) hret
    show ((capture p d).response_header_ready_ = true ∧ (capture p d).headerbuf_.pos_ = 0) ∨
      ((capture p d).response_header_ready_ = false ∧
        (capture p d).headerbuf_.pos_ = (capture p d).headerbuf_.length_ ∧
        f + 2 < (capture p d).headerbuf_.length_)
    rcases hwrong with ⟨hr, hp0⟩ | ⟨hr, hpos, hlen⟩
    · rw [capture_skip d (Or.inr (Or.inl hr))]
      exact Or.inl ⟨hr, hp0⟩
    · by_cases h4 : 4096 ≤ p.headerbuf_.length_
      · rw [capture_skip d (Or.inl h4)]
        exact Or.inr ⟨hr, hpos, hlen⟩
      · have hearly : p.recvstatus_.toNat < TRecvStatus.kBody.toNat := by
          rw [hs]
          decide
        have hend := AutoBuffer.write_end hpos (d.take 4096)
        rcases capture_write hearly (by omega) hr hpos rfl with ⟨pos, -, -, -, h2, h3⟩ | ⟨-, h1, h2⟩
        · exact Or.inl ⟨h3, h2⟩
        · rw [h1, h2]
          exact Or.inr ⟨rfl, hend.1, by omega⟩
  | past hs hlong hdata =>
    have hpast : Past (enter p d) := by
      unfold Past
      rw [hstatus]
      exact hs
    obtain ⟨h1, h2⟩ := returns_past hpast hret
    have h3 : (enter p d).headerbuf_ = p.headerbuf_ := by
      show (capture p d).headerbuf_ = _
      rw [capture_skip d (Or.inr (Or.inr hs))]
    exact .past h1 (by omega) (by rw [h2, h3, hdata, onePiece_more d hlong])
  | error hs => exact absurd hret (not_returns_error (by rw [hstatus]; exact hs))

end

theorem headerStage_of_recvAll {w : Bytes} {f h : Nat} (hw : Header w f h) {pieces : List Bytes}
    {p q : Parser} (hall : RecvAll p pieces q) {fed : List Bytes} {t : Bytes}
    (hu : (fed ++ pieces).flatten ++ t = w) (hne : ∀ piece ∈ pieces, piece ≠ [])
    (ht : p.recvbuf_.Tail) (hp : HeaderStage w f h fed p) :
    HeaderStage w f h (fed ++ pieces) q := by
  induction hall generalizing fed with
  | nil p => rwa [List.append_nil]
  | @cons p q r piece pieces hrecv _ ih =>
    have hassoc : fed ++ piece :: pieces = (fed ++ [piece]) ++ pieces := by simp
    have hu' : (fed ++ [piece]).flatten ++ (pieces.flatten ++ t) = w := by
      rw [← hu, hassoc]
      simp only [List.flatten_append, List.append_assoc]
    rw [hassoc] at hu ⊢
    exact ih hu (fun x hx => hne x (List.mem_cons_of_mem _ hx)) (recv_tail ht hrecv)
      (hp.step hw hu' (hne piece List.mem_cons_self) ht hrecv)

/-- **Raw header capture**: once the body is reached, the header buffer holds the bytes from the
first line through the blank line if and only if one piece completed both, within its first 4096
bytes, and fewer than 4096 bytes came before it. -/
theorem headerBuffer_iff {w t : Bytes} {f h : Nat} (hw : Header w f h) (pieces : List Bytes)
    (hcut : pieces.flatten ++ t = w) (hne : ∀ piece ∈ pieces, piece ≠ [])
    (r : Option BodyReceiver) {q : Parser} (hall : RecvAll { bodyreceiver_ := r } pieces q)
    (hq : TRecvStatus.kBody.toNat ≤ q.recvstatus_.toNat) :
    q.headerbuf_.data = w.take (h + 4) ↔
      ∃ pre d post, pieces = pre ++ d :: post ∧ pre.flatten.length < f + 2 ∧
        pre.flatten.length < 4096 ∧ h + 4 ≤ pre.flatten.length + min d.length 4096 := by
  have hstart : HeaderStage w f h [] ({ bodyreceiver_ := r } : Parser) :=
    .line (Or.inl rfl) rfl (Nat.succ_pos _) rfl rfl (fun _ => rfl)
      (fun hlen => absurd hlen (by decide))
  have hstage := headerStage_of_recvAll hw hall (by rwa [List.nil_append]) hne AutoBuffer.Tail.new hstart
  rw [List.nil_append] at hstage
  cases hstage with
  | line hs =>
    rcases hs with e | e
    all_goals
      rw [e] at hq
      exact absurd hq (by decide)
  | fields hs =>
    rw [hs] at hq
    exact absurd hq (by decide)
  | past _ _ hdata => exact hdata
  | error hs =>
    rcases hs with e | e
    all_goals
      rw [e] at hq
      exact absurd hq (by decide)

theorem get_header : Header (ascii "GET / HTTP/1.1\r\nHost: a\r\n\r\n") 14 23 :=
  ⟨by decide +kernel, by decide +kernel, by decide⟩

theorem headerBuffer_iff_get : ∃ q : Parser, (∃ pre d post,
    [ascii "GET / HTTP/1.1\r\nHost: a\r\n\r\n"] = pre ++ d :: post ∧ pre.flatten.length < 14 + 2 ∧
      pre.flatten.length < 4096 ∧ 23 + 4 ≤ pre.flatten.length + min d.length 4096) ∧
    q.headerbuf_.data = (ascii "GET / HTTP/1.1\r\nHost: a\r\n\r\n").take (23 + 4) := by
  obtain ⟨q, hq, hs⟩ := recvAll_of_within (n := 4) (p := { bodyreceiver_ := none })
    (f := fun q => decide (TRecvStatus.kBody.toNat ≤ q.recvstatus_.toNat))
    (l := [ascii "GET / HTTP/1.1\r\nHost: a\r\n\r\n"]) (by decide +kernel)
  have hone : ∃ pre d post, [ascii "GET / HTTP/1.1\r\nHost: a\r\n\r\n"] = pre ++ d :: post ∧
      pre.flatten.length < 14 + 2 ∧ pre.flatten.length < 4096 ∧
      23 + 4 ≤ pre.flatten.length + min d.length 4096 :=
    ⟨[], _, [], rfl, by decide, by decide, by decide⟩
  refine ⟨q, hone, ?_⟩
  exact (headerBuffer_iff get_header _ (t := []) (by rw [List.append_nil]; rfl)
    (by decide +kernel) none hq (of_decide_eq_true hs)).mpr hone

/-- cut after the first line, the first line is captured twice -/
theorem header_cut : ¬ ∀ (w t : Bytes) (f h : Nat) (pieces : List Bytes) (r : Option BodyReceiver)
    (q : Parser), Header w f h → pieces.flatten ++ t = w → (∀ piece ∈ pieces, piece ≠ []) →
    RecvAll { bodyreceiver_ := r } pieces q → TRecvStatus.kBody.toNat ≤ q.recvstatus_.toNat →
    q.headerbuf_.data = w.take (h + 4) := by
  intro hall
  obtain ⟨q, hq, hs⟩ := recvAll_of_within (n := 4) (p := { bodyreceiver_ := none })
    (f := fun q => decide (TRecvStatus.kBody.toNat ≤ q.recvstatus_.toNat) &&
      decide (q.headerbuf_.length_ ≠ 27))
    (l := [ascii "GET / HTTP/1.1\r\n", ascii "Host: a\r\n\r\n"]) (by decide +kernel)
  rw [Bool.and_eq_true] at hs
  have h := hall _ [] 14 23 _ none q get_header (by rw [List.append_nil]; decide +kernel)
    (by decide +kernel) hq (of_decide_eq_true hs.1)
  have hlen := congrArg List.length h
  rw [AutoBuffer.data_length] at hlen
  exact of_decide_eq_true hs.2 (hlen.trans (by decide +kernel))

end Http
