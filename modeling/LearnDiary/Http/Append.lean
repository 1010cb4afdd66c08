import LearnDiary.Http.View

/-!
# More bytes

What the parser does with the first bytes of a stream it also does when more bytes follow.  There
is one exception: the line end of a message without header fields, which is recognised only when
the whole blank line is in the buffer (`Uncut`).

* `again_append`     an iteration that goes on does the same when more bytes follow;
* `ret_append`       a call that stops for lack of bytes goes on as if they had been there;
* `returns_append`   so a call with more bytes goes on where the call without them has stopped.
-/

namespace Http
open Loop

/-- `t` does not complete a blank line that begins right behind the first line -/
def Uncut (c : Core) (d t : Bytes) : Prop :=
  AtStart c → ∀ k, findC crlf d = some k → findC crlf2 (d ++ t) = some k → findC crlf2 d = some k

/-- the announced length is not negative, and the bytes stay within it and within an `int` -/
def Fair (c : Core) (d : Bytes) : Prop :=
  c.recvstatus_ = .kBody → c.headfields_.isTransferEncodingChunked = false →
    ∀ r, c.bodyreceiver_ = some r → 0 ≤ c.headfields_.contentLength ∧
      (r.total_length_ : Int) ≤ c.headfields_.contentLength ∧ d.length + r.total_length_ < 2 ^ 31

/-! ## one iteration with more bytes -/

theorem take_append_le {d : Bytes} {n : Nat} (t : Bytes) (h : n ≤ d.length) :
    (d ++ t).take n = d.take n := List.take_append_of_le_length h

theorem drop_append_le {d : Bytes} {n : Nat} (t : Bytes) (h : n ≤ d.length) :
    (d ++ t).drop n = d.drop n ++ t := List.drop_append_of_le_length h

theorem viewAfterLine_append {o : Overload} {c : Core} {d t : Bytes} {pos : Nat} (hst : AtStart c)
    (hf : findC crlf d = some pos) (hcut : Uncut c d t) :
    viewAfterLine o (d ++ t) pos = viewAfterLine o d pos := by
  have e : findC crlf2 (d ++ t) = some pos ↔ findC crlf2 d = some pos :=
    ⟨hcut hst pos hf, Find.findUpTo_append notNul t⟩
  unfold viewAfterLine
  simp only [e]

theorem viewAfterLine_le {o : Overload} {d : Bytes} {pos : Nat} (hf : findC crlf d = some pos) :
    (viewAfterLine o d pos).2 ≤ d.length := by
  unfold viewAfterLine
  split
  · rename_i h
    exact findC_crlf2_le h.2
  · exact findC_crlf_le hf

theorem viewIdle_cons (c : Core) {d : Bytes} (h : d ≠ []) : viewIdle c d = .again (c, d) := by
  unfold viewIdle
  rw [if_neg (fun e => h (List.length_eq_zero_iff.mp e))]

theorem viewIdle_again {c : Core} {d : Bytes} {v : View} (h : viewIdle c d = .again v) :
    v = (c, d) ∧ d ≠ [] := by
  unfold viewIdle at h
  split at h
  · cases h
  · rename_i hne
    cases h
    exact ⟨rfl, fun e => hne (by rw [e]; rfl)⟩

theorem viewIdle_ret {c : Core} {d : Bytes} {v : View} (h : viewIdle c d = .ret v) :
    v = (c, d) ∧ d = [] := by
  unfold viewIdle at h
  split at h
  · rename_i he
    cases h
    exact ⟨rfl, List.length_eq_zero_iff.mp he⟩
  · cases h

theorem viewChunk_append_append {d t : Bytes} {off len move : Nat}
    (h : viewChunk d d.length = .append off len move) :
    viewChunk (d ++ t) (d ++ t).length = .append off len move ∧ off + len + 2 = move ∧
      move ≤ d.length := by
  obtain ⟨pos, h1, h2, h3, h4, h5, rfl, rfl⟩ := viewChunk_append_iff.mp h
  refine ⟨viewChunk_append_iff.mpr ⟨pos, Find.findUpTo_append notNul t h1, ?_, h3, ?_, ?_, rfl, rfl⟩,
    rfl, h4⟩
  · rw [take_append_le t (by omega)]
    exact h2
  · rw [List.length_append]
    omega
  · exact Find.prefix_drop_append t h5

theorem viewChunk_last_append {d t : Bytes} {move : Nat} (h : viewChunk d d.length = .last move) :
    viewChunk (d ++ t) (d ++ t).length = .last move ∧ move ≤ d.length := by
  obtain ⟨pos, k, h1, h2, h3, h4, rfl⟩ := viewChunk_last_iff.mp h
  have h5 := findC_crlf_le h4
  rw [List.length_drop] at h5
  refine ⟨viewChunk_last_iff.mpr ⟨pos, k, Find.findUpTo_append notNul t h1, ?_, ?_, ?_, rfl⟩,
    by omega⟩
  · rw [take_append_le t (by omega)]
    exact h2
  · rw [List.length_append]
    omega
  · rw [drop_append_le t (by omega)]
    exact Find.findUpTo_append notNul t h4

theorem appendData_append (r : BodyReceiver) {d : Bytes} {off len : Nat} (t : Bytes)
    (h : off + len ≤ d.length) :
    r.appendData ((d ++ t).drop off) len = r.appendData (d.drop off) len := by
  unfold BodyReceiver.appendData
  rw [drop_append_le t (by omega), take_append_le t (by rw [List.length_drop]; omega)]

theorem fair_total {c : Core} {d : Bytes} {r : BodyReceiver} {n : Nat} (hf : Fair c d)
    (hst : c.recvstatus_ = .kBody) (hr : c.bodyreceiver_ = some r)
    (hc : c.headfields_.isTransferEncodingChunked = false)
    (hn : fixedLen c.headfields_.contentLength d.length r.total_length_ = n) :
    (r.appendData d n).total_length_ = r.total_length_ + n ∧ n ≤ d.length ∧
      (n < d.length → ((r.total_length_ + n : Nat) : Int) = c.headfields_.contentLength) := by
  obtain ⟨h0, h1, h2⟩ := hf hst hc r hr
  have hle := (fixedLen_le (l := d.length) h1).1
  rw [hn] at hle
  refine ⟨Nat.mod_eq_of_lt (by omega), hle, fun hlt => ?_⟩
  unfold fixedLen at hn
  split at hn
  · omega
  · omega

/-- **An iteration that goes on does the same when more bytes follow.** -/
theorem again_append {c : Core} {d t : Bytes} {v : View} (hf : Fair c d) (hcut : Uncut c d t)
    (h : viewTurn rawOverload (c, d) = .again v) :
    viewTurn rawOverload (c, d ++ t) = .again (v.1, v.2 ++ t) := by
  have hs := viewTurn_step rawOverload (c, d)
  rw [h] at hs
  generalize hx : Turn.again v = x at hs
  cases hs with
  | line hst hfind hp =>
    cases hx
    have hle := viewAfterLine_le (o := rawOverload) hfind
    have h2 := findC_crlf_le hfind
    have e := viewTurn_eq (ViewStep.line (o := rawOverload) (d := d ++ t) hst
      (Find.findUpTo_append notNul t hfind) (by rw [take_append_le t h2]; exact hp))
    rw [viewAfterLine_append hst hfind hcut, drop_append_le t hle] at e
    exact e
  | fields hst hfind =>
    cases hx
    have h4 := findC_crlf2_le hfind
    have e := viewTurn_eq (ViewStep.fields (o := rawOverload) (d := d ++ t) hst
      (Find.findUpTo_append notNul t hfind))
    rw [take_append_le t h4, drop_append_le t h4] at e
    exact e
  | noReceiver hst hr =>
    obtain ⟨rfl, hne⟩ := viewIdle_again hx.symm
    rw [viewTurn_eq (ViewStep.noReceiver (o := rawOverload) (d := d ++ t) hst hr),
      viewIdle_cons c (by simp [hne])]
  | @chunk _ _ r _ _ _ hst hr hc hv =>
    obtain ⟨rfl, hne⟩ := viewIdle_again hx.symm
    obtain ⟨hv', hm, hle⟩ := viewChunk_append_append (t := t) hv
    have e := viewTurn_eq (ViewStep.chunk (o := rawOverload) (d := d ++ t) hst hr hc hv')
    rw [drop_append_le t hle, viewIdle_cons _ (by simp [hne])] at e
    rw [e, appendData_append r t (by omega)]
  | lastChunk hst hr hc hv =>
    obtain ⟨rfl, hne⟩ := viewIdle_again hx.symm
    obtain ⟨hv', hle⟩ := viewChunk_last_append (t := t) hv
    have e := viewTurn_eq (ViewStep.lastChunk (o := rawOverload) (d := d ++ t) hst hr hc hv')
    rw [drop_append_le t hle, viewIdle_cons _ (by simp [hne])] at e
    exact e
  | fixed hst hr hc hn heq =>
    obtain ⟨rfl, hne⟩ := viewIdle_again hx.symm
    obtain ⟨h1, h2, h3⟩ := fair_total hf hst hr hc hn
    rw [h1] at heq
    exact absurd (h3 (Nat.lt_of_not_le (fun hle => hne (List.drop_eq_nil_iff.mpr hle)))) heq
  | spin hst =>
    cases hx
    exact viewTurn_eq (.spin hst)
  | _ => cases hx

theorem parseFirstLine_status {c c' : Core} {l : Bytes} {ok : Bool} (s : TRecvStatus)
    (h : parseFirstLine c l = (ok, c')) :
    parseFirstLine { c with recvstatus_ := s } l = (ok, { c' with recvstatus_ := s }) := by
  unfold parseFirstLine at h ⊢
  split at h
  · rename_i hl
    rw [if_pos hl]
    split at h
    all_goals
      rename_i e
      cases h
      simp only [e]
  · rename_i hl
    rw [if_neg hl]
    split at h
    all_goals
      rename_i e
      cases h
      simp only [e]

theorem viewTurn_kFirstLine (o : Overload) {c : Core} (d : Bytes) (h : AtStart c) :
    viewTurn o ({ c with recvstatus_ := .kFirstLine }, d) = viewTurn o (c, d) := by
  have h' : AtStart { c with recvstatus_ := .kFirstLine } := Or.inr rfl
  cases hf : findC crlf d with
  | none =>
    by_cases hl : 8 * 1024 < d.length
    · rw [viewTurn_eq (.lineLong h hf hl), viewTurn_eq (.lineLong h' hf hl)]
    · rw [viewTurn_eq (.lineWait h hf (by omega)), viewTurn_eq (.lineWait h' hf (by omega))]
  | some pos =>
    rcases hp : parseFirstLine c (d.take (pos + 2)) with ⟨_ | _, c'⟩
    · rw [viewTurn_eq (.lineBad h hf hp),
        viewTurn_eq (.lineBad h' hf (parseFirstLine_status .kFirstLine hp))]
    · rw [viewTurn_eq (.line h hf hp),
        viewTurn_eq (.line h' hf (parseFirstLine_status .kFirstLine hp))]

/-- a fixed-length body that takes all of `d` takes of `d ++ t` what it takes of `t` afterwards -/
theorem fixedLen_append {contentLength : Int} {l m d : Nat}
    (h : ((l + d : Nat) : Int) ≤ contentLength) :
    fixedLen contentLength (l + m) d = l + fixedLen contentLength m (d + l) := by
  unfold fixedLen
  split
  · rw [if_pos (by omega)]
  · rw [if_neg (by omega)]
    omega

theorem appendData_appendData (r : BodyReceiver) (d t : Bytes) (m : Nat) :
    r.appendData (d ++ t) (d.length + m) = (r.appendData d d.length).appendData t m := by
  unfold BodyReceiver.appendData
  simp only [BodyReceiver.mk.injEq]
  constructor
  · omega
  · rw [List.take_length, List.append_assoc, List.take_append, Nat.add_sub_cancel_left,
      List.take_of_length_le (by omega)]

theorem fixed_append {c : Core} {d t : Bytes} {r : BodyReceiver} (hf : Fair c d)
    (hst : c.recvstatus_ = .kBody) (hr : c.bodyreceiver_ = some r)
    (hc : c.headfields_.isTransferEncodingChunked = false)
    (hle : ((d.length + r.total_length_ : Nat) : Int) ≤ c.headfields_.contentLength) :
    viewTurn rawOverload (c, d ++ t) =
      viewTurn rawOverload ({ c with bodyreceiver_ := some (r.appendData d d.length) }, t) := by
  have h2 := (hf hst hc r hr).2.2
  have htot : (r.appendData d d.length).total_length_ = r.total_length_ + d.length :=
    Nat.mod_eq_of_lt (by omega)
  generalize hm : fixedLen c.headfields_.contentLength t.length (r.total_length_ + d.length) = m
  have hn : fixedLen c.headfields_.contentLength (d ++ t).length r.total_length_
      = d.length + m := by
    rw [List.length_append, fixedLen_append hle, hm]
  have hm' : fixedLen c.headfields_.contentLength t.length
      (r.appendData d d.length).total_length_ = m := by rw [htot, hm]
  have hdrop : (d ++ t).drop (d.length + m) = t.drop m := by
    rw [List.drop_append, Nat.add_sub_cancel_left, List.drop_eq_nil_of_le (by omega),
      List.nil_append]
  have hrec := appendData_appendData r d t m
  by_cases heq : ((r.appendData (d ++ t) (d.length + m)).total_length_ : Int)
      = c.headfields_.contentLength
  · have e1 := viewTurn_eq (ViewStep.fixedEnd (o := rawOverload) hst hr hc hn heq)
    have e2 := viewTurn_eq (ViewStep.fixedEnd (o := rawOverload)
      (c := { c with bodyreceiver_ := some (r.appendData d d.length) }) hst rfl hc hm'
      (by rw [← hrec]; exact heq))
    rw [e1, e2, hdrop, hrec]
  · have e1 := viewTurn_eq (ViewStep.fixed (o := rawOverload) hst hr hc hn heq)
    have e2 := viewTurn_eq (ViewStep.fixed (o := rawOverload)
      (c := { c with bodyreceiver_ := some (r.appendData d d.length) }) hst rfl hc hm'
      (by rw [← hrec]; exact heq))
    rw [e1, e2, hdrop, hrec]

/-- **A call that stops for lack of bytes goes on with more bytes as if they had been there.** -/
theorem ret_append {c : Core} {d t : Bytes} {v z : View} (hf : Fair c d) (ht : t ≠ [])
    (h : viewTurn rawOverload (c, d) = .ret v) (hok : v.1.recvstatus_.error = false)
    (hz : Returns (viewTurn rawOverload) (v.1, v.2 ++ t) z) :
    Returns (viewTurn rawOverload) (c, d ++ t) z := by
  have hs := viewTurn_step rawOverload (c, d)
  rw [h] at hs
  generalize hx : Turn.ret v = x at hs
  cases hs with
  | lineWait hst hfind hl =>
    cases hx
    exact hz.of_turn_eq (viewTurn_kFirstLine _ _ hst).symm
  | lineLong | lineBad | fieldsLong | chunkBad =>
    cases hx
    cases hok
  | fieldsWait | chunkWait | done =>
    cases hx
    exact hz
  | noReceiver hst hr =>
    obtain ⟨rfl, rfl⟩ := viewIdle_ret hx.symm
    exact hz
  | @chunk _ _ r _ _ _ hst hr hc hv =>
    obtain ⟨rfl, hnil⟩ := viewIdle_ret hx.symm
    obtain ⟨hv', hm, hle⟩ := viewChunk_append_append (t := t) hv
    have e := viewTurn_eq (ViewStep.chunk (o := rawOverload) (d := d ++ t) hst hr hc hv')
    rw [drop_append_le t hle, viewIdle_cons _ (by simp [ht]), appendData_append r t (by omega)] at e
    exact .again e hz
  | lastChunk hst hr hc hv =>
    obtain ⟨rfl, hnil⟩ := viewIdle_ret hx.symm
    obtain ⟨hv', hle⟩ := viewChunk_last_append (t := t) hv
    have e := viewTurn_eq (ViewStep.lastChunk (o := rawOverload) (d := d ++ t) hst hr hc hv')
    rw [drop_append_le t hle, viewIdle_cons _ (by simp [ht])] at e
    exact .again e hz
  | @fixedEnd _ _ r n hst hr hc hn heq =>
    cases hx
    obtain ⟨h1, h2, h3⟩ := fair_total hf hst hr hc hn
    rw [h1] at heq
    have hpos : 0 < t.length := List.length_pos_iff.mpr ht
    have hn' : fixedLen c.headfields_.contentLength (d ++ t).length r.total_length_ = n := by
      unfold fixedLen
      rw [List.length_append, if_neg (by omega)]
      omega
    have happ : r.appendData ((d ++ t).drop 0) n = r.appendData (d.drop 0) n :=
      appendData_append r t (by omega)
    rw [List.drop_zero, List.drop_zero] at happ
    have e := viewTurn_eq (ViewStep.fixedEnd (o := rawOverload) (d := d ++ t) hst hr hc hn'
      (by rw [happ, h1]; exact heq))
    rw [happ, drop_append_le t h2] at e
    exact hz.of_turn_eq (e.trans (viewTurn_eq (.done rfl)).symm)
  | @fixed _ _ r n hst hr hc hn heq =>
    obtain ⟨rfl, hnil⟩ := viewIdle_ret hx.symm
    obtain ⟨h1, h2, h3⟩ := fair_total hf hst hr hc hn
    have hlen : n = d.length := Nat.le_antisymm h2 (List.drop_eq_nil_iff.mp hnil)
    obtain ⟨h4, h5, _⟩ := hf hst hc r hr
    have hle : ((d.length + r.total_length_ : Nat) : Int) ≤ c.headfields_.contentLength := by
      have h6 := (fixedLen_le (l := d.length) h5).2
      rw [hn] at h6
      omega
    rw [hnil, List.nil_append, hlen] at hz
    exact hz.of_turn_eq (fixed_append hf hst hr hc hle)
  | _ => cases hx

theorem not_atStart {o : Overload} {c : Core} {d : Bytes} {v : View}
    (h : viewTurn o (c, d) = .again v) : ¬ AtStart v.1 := by
  have hs := viewTurn_step o (c, d)
  rw [h] at hs
  generalize hx : Turn.again v = x at hs
  rintro (hv | hv)
  all_goals
    cases hs with
    | line =>
      cases hx
      unfold viewAfterLine at hv
      split at hv <;> cases hv
    | fields =>
      cases hx
      cases hv
    | noReceiver hst | chunk hst | fixed hst =>
      obtain ⟨rfl, _⟩ := viewIdle_again hx.symm
      exact TRecvStatus.noConfusion (hst.symm.trans hv)
    | lastChunk =>
      obtain ⟨rfl, _⟩ := viewIdle_again hx.symm
      cases hv
    | spin hst =>
      cases hx
      rw [hv] at hst
      cases hst
    | _ => cases hx

/-- **A call with more bytes goes on where the call without them has stopped.** -/
theorem returns_append {s v z : View} {t : Bytes} (hr : Returns (viewTurn rawOverload) s v)
    (hfair : ∀ u, Reaches (viewTurn rawOverload) s u → Fair u.1 u.2) (hcut : Uncut s.1 s.2 t)
    (ht : t ≠ []) (hok : v.1.recvstatus_.error = false)
    (hz : Returns (viewTurn rawOverload) (v.1, v.2 ++ t) z) :
    Returns (viewTurn rawOverload) (s.1, s.2 ++ t) z := by
  induction hr with
  | ret e => exact ret_append (hfair _ (.refl _)) ht e hok hz
  | again e _ ih =>
    refine .again (again_append (hfair _ (.refl _)) hcut e) ?_
    exact ih (fun u hu => hfair u (.step e hu)) (fun hst => absurd hst (not_atStart e)) hok hz

theorem atStart_returns {o : Overload} {s v : View} (h : Returns (viewTurn o) s v)
    (hv : AtStart v.1) : AtStart s.1 ∧ v.2 = s.2 := by
  induction h with
  | @ret s v e =>
    obtain ⟨c, d⟩ := s
    have hs := viewTurn_step o (c, d)
    rw [e] at hs
    generalize hx : Turn.ret v = x at hs
    cases hs with
    | lineWait hst =>
      cases hx
      exact ⟨hst, rfl⟩
    | fieldsWait hst | done hst =>
      cases hx
      exact ⟨hv, rfl⟩
    | chunkWait hst =>
      cases hx
      exact ⟨hv, rfl⟩
    | lineLong | lineBad | fieldsLong | chunkBad | fixedEnd =>
      cases hx
      exact absurd hv (by simp [AtStart])
    | noReceiver hst =>
      obtain ⟨rfl, _⟩ := viewIdle_ret hx.symm
      exact ⟨hv, rfl⟩
    | chunk hst | fixed hst =>
      obtain ⟨rfl, _⟩ := viewIdle_ret hx.symm
      exact absurd hv (by simp [AtStart, hst])
    | lastChunk =>
      obtain ⟨rfl, _⟩ := viewIdle_ret hx.symm
      exact absurd hv (by simp [AtStart])
    | _ => cases hx
  | again e _ ih => exact absurd (ih hv).1 (not_atStart e)

end Http
