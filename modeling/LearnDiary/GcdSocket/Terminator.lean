import LearnDiary.GcdSocket.ReadPacket
import LearnDiary.Lib.FirstHit

/-!
# The terminator of a `GCDAsyncReadPacket`

The two searches: in the packet and the prebuffer together, and in the packet after the bytes have
been put behind it.  A read outside the packet's buffer, the bytes available in the prebuffer or
`seq` has no outcome.

* `windowLoop_spec`   the loop over the window that slides from the packet into the prebuffer;
* `searchLoop_spec`   the loop over the packet;
* `readLength_first`  the first search;
* `searches_agree`    both.
-/

namespace GCDAsyncReadPacket
open Reads RawBuffer

def readable (preBuffer : GCDAsyncSocketPreBuffer) : Option Bytes :=
  preBuffer.readBytes preBuffer.availableBytes

/-- `buf` is an offset in the packet's buffer, `pre` one from `readBuffer` on -/
structure Window where
  buf : Nat
  bufLen : Nat
  pre : Nat
  preLen : Nat

/-- `memcpy(seq, buf, bufLen); memcpy(seq + bufLen, pre, preLen);` -/
def fillSeq (termLength : Nat) (a b : Bytes) : Option Bytes :=
  (memcpyTo (List.replicate termLength 0) 0 a).bind (memcpyTo · a.length b)

/-- the loop with `k` rounds to go; `none` inside where it ends without a `break` -/
def windowLoop (buffer pre term : Bytes) : Nat → Window → Option (Option Nat)
  | 0, _ => some none
  | k + 1, w =>
    if w.bufLen > 0 then
      (load buffer w.buf w.bufLen).bind fun a =>
        (load pre w.pre w.preLen).bind fun b =>
          (fillSeq term.length a b).bind fun seq =>
            if seq = term then some (some w.preLen)
            else windowLoop buffer pre term k ⟨w.buf + 1, w.bufLen - 1, w.pre, w.preLen + 1⟩
    else
      (load pre w.pre term.length).bind fun b =>
        if b = term then some (some (w.pre + term.length))
        else windowLoop buffer pre term k { w with pre := w.pre + 1 }

/-- the length and `*foundPtr`, which is `found` before -/
def readLengthForTermWithPreBuffer (p : GCDAsyncReadPacket) (preBuffer : GCDAsyncSocketPreBuffer)
    (found : Bool) : Option (Nat × Bool) :=
  p.term.bind fun term =>
    let preBufferLength := preBuffer.availableBytes
    if ¬ preBufferLength > 0 then none
    else if addSize p.bytesDone preBufferLength < term.length then some (preBufferLength, found)
    else
      let maxPreBufferLength :=
        if p.maxLength > 0 then min preBufferLength (subSize p.maxLength p.bytesDone)
        else preBufferLength
      let bufLen := min p.bytesDone (subSize term.length 1)
      let preLen := subSize term.length bufLen
      let loopCount := addSize (subSize (addSize bufLen maxPreBufferLength) term.length) 1
      (readable preBuffer).bind fun pre =>
        (windowLoop p.buffer pre term loopCount
          ⟨p.startOffset + p.bytesDone - bufLen, bufLen, 0, preLen⟩).map fun
            | some result => (result, true)
            | none => (maxPreBufferLength, false)

/-- `while (i + termLength <= buffLength)`, at most `fuel` rounds -/
def searchLoop (buffer term : Bytes) (startOffset buffLength : Nat) : Nat → Nat → Option Int
  | 0, _ => none
  | fuel + 1, i =>
    if addSize i term.length ≤ buffLength then
      (load buffer (startOffset + i) term.length).bind fun subBuffer =>
        if subBuffer = term then some (toOff (subSize buffLength (addSize i term.length)))
        else searchLoop buffer term startOffset buffLength fuel (i + 1)
    else some (-1)

def searchForTermAfterPreBuffering (p : GCDAsyncReadPacket) (numBytes : Int) : Option Int :=
  p.term.bind fun term =>
    let buffLength := addSize p.bytesDone (toSize numBytes)
    let old := subSize buffLength (toSize numBytes)
    let i := if old ≥ term.length then addSize (subSize old term.length) 1 else 0
    searchLoop p.buffer term p.startOffset buffLength (buffLength + 2) i

/-! ## where a terminator stands -/

def done (p : GCDAsyncReadPacket) : Bytes := (p.buffer.drop p.startOffset).take p.bytesDone

/-- `term` stands at `i` -/
def Stands (s term : Bytes) (i : Nat) : Prop := (s.drop i).take term.length = term

/-- the packet's bytes and the first `k` of `pre` end with the terminator -/
def Ends (d pre term : Bytes) (k : Nat) : Prop := term <:+ d ++ pre.take k

/-- the smallest such `k` up to `allowed`; or `allowed`, where there is none -/
def FirstEnd (d pre term : Bytes) (allowed : Nat) (r : Nat × Bool) : Prop :=
  if r.2 then r.1 ≤ allowed ∧ Ends d pre term r.1 ∧ ∀ k < r.1, ¬ Ends d pre term k
  else r.1 = allowed ∧ ∀ k ≤ allowed, ¬ Ends d pre term k

def allowed (p : GCDAsyncReadPacket) (n : Nat) : Nat :=
  if p.maxLength > 0 then min n (p.maxLength - p.bytesDone) else n

section
variable {d pre term s : Bytes}

theorem suffix_take_iff {n : Nat} (hn : n ≤ s.length) :
    term <:+ s.take n ↔ term.length ≤ n ∧ Stands s term (n - term.length) := by
  have hlen : (s.take n).length = n := by
    rw [List.length_take, Nat.min_eq_left hn]
  rw [List.suffix_iff_eq_drop, hlen, List.drop_take]
  unfold Stands
  constructor
  · intro h
    have hle : term.length ≤ n := by
      have := congrArg List.length h
      rw [List.length_take, List.length_drop] at this
      omega
    rw [Nat.sub_sub_self hle] at h
    exact ⟨hle, h.symm⟩
  · rintro ⟨hle, h⟩
    rw [Nat.sub_sub_self hle]
    exact h.symm

theorem ends_iff {k : Nat} (hk : k ≤ pre.length) :
    Ends d pre term k ↔
      term.length ≤ d.length + k ∧ Stands (d ++ pre) term (d.length + k - term.length) := by
  have htake : d ++ pre.take k = (d ++ pre).take (d.length + k) := by
    rw [List.take_length_add_append]
  unfold Ends
  rw [htake, suffix_take_iff (by rw [List.length_append]; omega)]

theorem not_stands (h : ¬ term <:+: d) {i : Nat} (hi : i + term.length ≤ d.length) :
    ¬ Stands (d ++ pre) term i := by
  intro hs
  apply h
  unfold Stands at hs
  rw [List.drop_append_of_le_length (by omega), List.take_append_of_le_length (by
    rw [List.length_drop]
    omega)] at hs
  rw [← hs]
  exact (List.take_prefix _ _).isInfix.trans (List.drop_suffix _ _).isInfix

/-- what the first search answers when the first window with the terminator is known -/
def answer (d term : Bytes) (n : Nat) : Option Nat → Nat × Bool
  | some i => (i + term.length - d.length, true)
  | none => (n, false)

/-- the first window with the terminator, and the first end -/
theorem firstEnd_of_hit {n lo : Nat} {r : Option Nat} (hne : term ≠ []) (hd : ¬ term <:+: d)
    (hn : n ≤ pre.length) (hlo : lo = d.length - min d.length (term.length - 1))
    (h : FirstHit (Stands (d ++ pre) term) lo (d.length + n + 1 - term.length) r) :
    FirstEnd d pre term n (answer d term n r) := by
  have hpos := List.length_pos_iff.mpr hne
  have hsmall : ∀ k, k ≤ n → Ends d pre term k →
      term.length ≤ d.length + k ∧ lo ≤ d.length + k - term.length ∧
        Stands (d ++ pre) term (d.length + k - term.length) := by
    intro k hk he
    obtain ⟨hle, hs⟩ := (ends_iff (by omega)).mp he
    refine ⟨hle, ?_, hs⟩
    by_contra hlt
    exact not_stands hd (by omega) hs
  cases r with
  | none =>
    refine ⟨rfl, fun k hk he => ?_⟩
    obtain ⟨hle, hge, hs⟩ := hsmall k hk he
    exact h _ hge (by omega) hs
  | some i =>
    obtain ⟨h1, h2, h3, h4⟩ := h
    have hge : d.length ≤ i + term.length := by
      by_contra hlt
      exact not_stands hd (by omega) h3
    refine ⟨?_, ?_, fun k hk he => ?_⟩
    · show i + term.length - d.length ≤ n
      omega
    · show Ends d pre term (i + term.length - d.length)
      refine (ends_iff (by omega)).mpr ⟨by omega, ?_⟩
      rw [show d.length + (i + term.length - d.length) - term.length = i by omega]
      exact h3
    · replace hk : k < i + term.length - d.length := hk
      obtain ⟨hle, hge', hs⟩ := hsmall k (by omega) he
      exact h4 _ hge' (by omega) hs

/-! ## the first search -/

theorem fillSeq_eq {n : Nat} {a b : Bytes} (h : a.length + b.length = n) :
    fillSeq n a b = some (a ++ b) := by
  have h1 : 0 + a.length ≤ (List.replicate n (0 : UInt8)).length := by
    rw [List.length_replicate]
    omega
  have ha : AutoBuffer.overwrite (List.replicate n 0) 0 a =
      a ++ List.replicate (n - a.length) 0 := by
    unfold AutoBuffer.overwrite
    rw [List.take_zero, List.nil_append, Nat.zero_add, List.drop_replicate]
  unfold fillSeq
  rw [memcpyTo_of_le h1, Option.bind_some, ha, memcpyTo_of_le (by
    rw [List.length_append, List.length_replicate]
    omega)]
  unfold AutoBuffer.overwrite
  rw [List.take_left' rfl, List.drop_of_length_le (by
    rw [List.length_append, List.length_replicate]
    omega), List.append_nil]

/-- the window that begins at `i` of the packet's bytes and those behind them -/
def windowAt (startOffset : Nat) (d term : Bytes) (i : Nat) : Window where
  buf := startOffset + min i d.length
  bufLen := d.length - i
  pre := i - d.length
  preLen := min (term.length - (d.length - i)) term.length

variable {buffer : Bytes} {startOffset : Nat}

/-- **The loop over the window** finds the first place of the terminator from `i` on. -/
theorem windowLoop_spec (hd : d = (buffer.drop startOffset).take d.length)
    (hin : startOffset + d.length ≤ buffer.length) (k i : Nat) (hi : d.length - i < term.length)
    (hk : i + k + term.length ≤ d.length + pre.length + 1) :
    ∃ r, windowLoop buffer pre term k (windowAt startOffset d term i) =
        some (r.map fun j => j + term.length - d.length) ∧
      FirstHit (Stands (d ++ pre) term) i (i + k) r := by
  induction k generalizing i with
  | zero => exact ⟨none, rfl, FirstHit.stop (Nat.le_refl _)⟩
  | succ k ih =>
    obtain ⟨r, hr, hfirst⟩ := ih (i + 1) (by omega) (by omega)
    have hrange : i + 1 + k = i + (k + 1) := by omega
    rw [hrange] at hfirst
    by_cases hlt : i < d.length
    · have ha : load buffer (startOffset + min i d.length) (d.length - i) = some (d.drop i) := by
        rw [Nat.min_eq_left (Nat.le_of_lt hlt), load_of_le (by omega)]
        conv_rhs => rw [hd]
        rw [List.drop_take, List.drop_drop]
      have hb : load pre (i - d.length) (min (term.length - (d.length - i)) term.length) =
          some (pre.take (term.length - (d.length - i))) := by
        rw [Nat.sub_eq_zero_of_le (Nat.le_of_lt hlt), Nat.min_eq_left (Nat.sub_le _ _),
          load_of_le (by omega), List.drop_zero]
      have hseq : fillSeq term.length (d.drop i) (pre.take (term.length - (d.length - i))) =
          some (d.drop i ++ pre.take (term.length - (d.length - i))) := by
        refine fillSeq_eq ?_
        rw [List.length_drop, List.length_take]
        omega
      have hwin : Stands (d ++ pre) term i ↔
          d.drop i ++ pre.take (term.length - (d.length - i)) = term := by
        unfold Stands
        rw [List.drop_append_of_le_length (Nat.le_of_lt hlt), List.take_append,
          List.take_of_length_le (by rw [List.length_drop]; omega), List.length_drop]
      have hstep : windowLoop buffer pre term (k + 1) (windowAt startOffset d term i) =
          if d.drop i ++ pre.take (term.length - (d.length - i)) = term then
            some (some (i + term.length - d.length))
          else windowLoop buffer pre term k (windowAt startOffset d term (i + 1)) := by
        have hnext : windowAt startOffset d term (i + 1) =
            ⟨startOffset + min i d.length + 1, d.length - i - 1, i - d.length,
              min (term.length - (d.length - i)) term.length + 1⟩ := by
          unfold windowAt
          congr 1
          all_goals omega
        have hres : i + term.length - d.length =
            min (term.length - (d.length - i)) term.length := by
          omega
        rw [hnext, hres]
        refine (if_pos (show (windowAt startOffset d term i).bufLen > 0 from
          Nat.sub_pos_of_lt hlt)).trans ?_
        simp only [windowAt]
        rw [ha, Option.bind_some, hb, Option.bind_some, hseq, Option.bind_some]
      rw [hstep]
      by_cases heq : d.drop i ++ pre.take (term.length - (d.length - i)) = term
      · refine ⟨some i, if_pos heq, FirstHit.hit (by omega) (hwin.mpr heq)⟩
      · refine ⟨r, (if_neg heq).trans hr, FirstHit.skip (fun hs => heq (hwin.mp hs)) hfirst⟩
    · have hb : load pre (i - d.length) term.length =
          some ((pre.drop (i - d.length)).take term.length) := load_of_le (by omega)
      have hwin : Stands (d ++ pre) term i ↔
          (pre.drop (i - d.length)).take term.length = term := by
        unfold Stands
        rw [List.drop_append, List.drop_of_length_le (by omega), List.nil_append]
      have hstep : windowLoop buffer pre term (k + 1) (windowAt startOffset d term i) =
          if (pre.drop (i - d.length)).take term.length = term then
            some (some (i + term.length - d.length))
          else windowLoop buffer pre term k (windowAt startOffset d term (i + 1)) := by
        have hnext : windowAt startOffset d term (i + 1) =
            ⟨startOffset + min i d.length, d.length - i, i - d.length + 1,
              min (term.length - (d.length - i)) term.length⟩ := by
          unfold windowAt
          congr 1
          all_goals omega
        have hres : i + term.length - d.length = i - d.length + term.length := by
          omega
        rw [hnext, hres]
        refine (if_neg (show ¬ (windowAt startOffset d term i).bufLen > 0 from
          fun h => absurd (Nat.lt_of_sub_pos h) hlt)).trans ?_
        simp only [windowAt]
        rw [hb, Option.bind_some]
      rw [hstep]
      by_cases heq : (pre.drop (i - d.length)).take term.length = term
      · refine ⟨some i, if_pos heq, FirstHit.hit (by omega) (hwin.mpr heq)⟩
      · refine ⟨r, (if_neg heq).trans hr, FirstHit.skip (fun hs => heq (hwin.mp hs)) hfirst⟩

end

theorem load_length {block d : Bytes} {off n : Nat} (h : load block off n = some d) :
    d.length = n := by
  unfold load at h
  split at h
  · cases h
    rw [List.length_take, List.length_drop]
    omega
  · cases h

section
variable {p : GCDAsyncReadPacket} {preBuffer : GCDAsyncSocketPreBuffer} {term pre d : Bytes}

theorem done_length (hin : p.startOffset + p.bytesDone ≤ p.buffer.length) :
    p.done.length = p.bytesDone := by
  unfold done
  rw [List.length_take, List.length_drop]
  omega

theorem readLength_eq (hterm : p.term = some term) (hne : term ≠ [])
    (hmax : p.maxLength = 0 ∨ term.length ≤ p.maxLength ∧ p.bytesDone ≤ p.maxLength)
    (hmax' : p.maxLength < 2 ^ 64)
    (hin : p.startOffset + p.bytesDone ≤ p.buffer.length) (hpre : readable preBuffer = some pre)
    (hpre0 : pre ≠ []) (hlt : term.length < 2 ^ 64)
    (hmem : p.buffer.length + pre.length < 2 ^ 64) :
    ∃ r, p.readLengthForTermWithPreBuffer preBuffer false =
        some (answer p.done term (p.allowed pre.length) r) ∧
      FirstHit (Stands (p.done ++ pre) term)
        (p.done.length - min p.done.length (term.length - 1))
        (p.done.length + p.allowed pre.length + 1 - term.length) r := by
  have hpos := List.length_pos_iff.mpr hne
  have hpos' := List.length_pos_iff.mpr hpre0
  have hlen := done_length hin
  have havail : preBuffer.availableBytes = pre.length := (load_length hpre).symm
  have hsum : addSize p.bytesDone pre.length = p.bytesDone + pre.length :=
    addSize_of_lt (by omega)
  have hallowed : (if p.maxLength > 0 then min pre.length (subSize p.maxLength p.bytesDone)
      else pre.length) = p.allowed pre.length := by
    unfold allowed
    split
    · rw [subSize_of_le (by omega) (by omega)]
    · rfl
  have hle : p.allowed pre.length ≤ pre.length := by
    unfold allowed
    split
    · exact Nat.min_le_left _ _
    · exact Nat.le_refl _
  simp only [readLengthForTermWithPreBuffer, hterm, Option.bind_some, havail, hsum]
  rw [if_neg (by omega)]
  by_cases hshort : p.bytesDone + pre.length < term.length
  · have hall : p.allowed pre.length = pre.length := by
      unfold allowed
      split
      · omega
      · rfl
    refine ⟨none, ?_, FirstHit.stop (by omega)⟩
    rw [if_pos hshort, hall]
    rfl
  · have hroom : term.length ≤ p.bytesDone + p.allowed pre.length := by
      unfold allowed
      split
      · omega
      · omega
    have hone : subSize term.length 1 = term.length - 1 := subSize_of_le hpos (by omega)
    generalize hb : min p.done.length (term.length - 1) = bufLen
    have hbuf : bufLen ≤ p.bytesDone ∧ bufLen < term.length ∧
        term.length ≤ bufLen + p.allowed pre.length + 1 := by
      omega
    have hpreLen : subSize term.length bufLen = term.length - bufLen :=
      subSize_of_le (Nat.le_of_lt hbuf.2.1) (by omega)
    have hcount : addSize (subSize (addSize bufLen (p.allowed pre.length)) term.length) 1 =
        bufLen + p.allowed pre.length + 1 - term.length := by
      unfold addSize subSize
      omega
    have hwindow : (⟨p.startOffset + p.bytesDone - bufLen, bufLen, 0, term.length - bufLen⟩ : Window)
        = windowAt p.startOffset p.done term (p.done.length - bufLen) := by
      simp only [windowAt, Window.mk.injEq]
      exact ⟨by omega, by omega, by omega, by omega⟩
    obtain ⟨r, hr, hfirst⟩ := @windowLoop_spec p.done pre term p.buffer p.startOffset
      (by rw [hlen]; rfl) (by omega) (bufLen + p.allowed pre.length + 1 - term.length)
      (p.done.length - bufLen) (by omega) (by omega)
    refine ⟨r, ?_, ?_⟩
    · rw [if_neg hshort, hallowed, hone, ← hlen, hb, hcount, hpreLen, hpre, Option.bind_some, hlen,
        hwindow, hr]
      cases r with
      | none => rfl
      | some i => rfl
    · rw [show p.done.length - bufLen + (bufLen + p.allowed pre.length + 1 - term.length) =
        p.done.length + p.allowed pre.length + 1 - term.length by omega] at hfirst
      exact hfirst

/-- **The first search**: the smallest `k` for which the packet's bytes and the first `k` of the
prebuffer end with the terminator; the two buffers lie in one address space (`hmem`). -/
theorem readLength_first (p : GCDAsyncReadPacket) (preBuffer : GCDAsyncSocketPreBuffer)
    (term pre : Bytes) (hterm : p.term = some term) (hne : term ≠ [])
    (hmax : p.maxLength = 0 ∨ term.length ≤ p.maxLength ∧ p.bytesDone ≤ p.maxLength)
    (hmax' : p.maxLength < 2 ^ 64)
    (hin : p.startOffset + p.bytesDone ≤ p.buffer.length) (hno : ¬ term <:+: p.done)
    (hpre : readable preBuffer = some pre) (hpre0 : pre ≠ [])
    (hlt : term.length < 2 ^ 64)
    (hmem : p.buffer.length + pre.length < 2 ^ 64) :
    ∃ r, p.readLengthForTermWithPreBuffer preBuffer false = some r ∧
      FirstEnd p.done pre term (p.allowed pre.length) r := by
  obtain ⟨r, hr, hfirst⟩ := readLength_eq hterm hne hmax hmax' hin hpre hpre0 hlt hmem
  refine ⟨_, hr, firstEnd_of_hit hne hno ?_ rfl hfirst⟩
  unfold allowed
  split
  · exact Nat.min_le_left _ _
  · exact Nat.le_refl _

end

/-- two bytes in the packet, the second one the first half of the terminator -/
theorem readLength_first_two :
    ∃ r, readLengthForTermWithPreBuffer
        { initWithData (some [5, 13, 0]) 0 4 0 (some [13, 10]) with bytesDone := 2 }
        ⟨100, [10, 9, 8, 0], 4, 100, 103⟩ false = some r ∧
      FirstEnd [5, 13] [10, 9, 8] [13, 10] 2 r :=
  readLength_first { initWithData (some [5, 13, 0]) 0 4 0 (some [13, 10]) with bytesDone := 2 }
    ⟨100, [10, 9, 8, 0], 4, 100, 103⟩ [13, 10] [10, 9, 8] rfl (by decide) (by decide) (by decide)
    (by decide) (by decide) (by decide +kernel) (by decide) (by decide) (by decide)

/-! ## the second search -/

/-- what the second search answers when the first place of the terminator is known -/
def excess (s term : Bytes) : Option Nat → Int
  | some i => s.length - (i + term.length : Nat)
  | none => -1

/-- **The loop over the packet** finds the first place of the terminator from `i` on. -/
theorem searchLoop_spec {buffer s term : Bytes} {startOffset : Nat}
    (hs : s = (buffer.drop startOffset).take s.length)
    (hin : startOffset + s.length ≤ buffer.length) (hlen : s.length < 2 ^ 64 - 1)
    (fuel i : Nat) (hfuel : s.length + 2 ≤ fuel + i) (hi : i ≤ s.length + 1)
    (hsum : i + term.length < 2 ^ 64)
    (hexcess : s.length - (i + term.length) < 2 ^ 63) :
    ∃ r, searchLoop buffer term startOffset s.length fuel i = some (excess s term r) ∧
      FirstHit (Stands s term) i (s.length + 1 - term.length) r := by
  induction fuel generalizing i with
  | zero => omega
  | succ fuel ih =>
    have hadd : addSize i term.length = i + term.length := addSize_of_lt (by omega)
    by_cases hle : i + term.length ≤ s.length
    · have hload : load buffer (startOffset + i) term.length =
          some ((s.drop i).take term.length) := by
        rw [load_of_le (by omega)]
        conv_rhs => rw [hs]
        rw [List.drop_take, List.drop_drop, List.take_take, Nat.min_eq_left (by omega)]
      have hstep : searchLoop buffer term startOffset s.length (fuel + 1) i =
          if (s.drop i).take term.length = term then
            some (toOff (subSize s.length (i + term.length)))
          else searchLoop buffer term startOffset s.length fuel (i + 1) := by
        simp only [searchLoop, hadd]
        rw [if_pos hle, hload, Option.bind_some]
      by_cases heq : (s.drop i).take term.length = term
      · refine ⟨some i, ?_, FirstHit.hit (by omega) heq⟩
        rw [hstep, if_pos heq, subSize_of_le hle (by omega), toOff_of_lt (by omega) (by omega)]
        show some _ = some ((s.length : Int) - (i + term.length : Nat))
        congr 1
        omega
      · obtain ⟨r, hr, hfirst⟩ := ih (i + 1) (by omega) (by omega) (by omega) (by omega)
        exact ⟨r, by rw [hstep, if_neg heq, hr], FirstHit.skip heq hfirst⟩
    · refine ⟨none, ?_, FirstHit.stop (by omega)⟩
      simp only [searchLoop, hadd]
      rw [if_neg hle]
      rfl

section
variable {p q : GCDAsyncReadPacket} {term d : Bytes}

/-- the second search, on a packet with the bytes `d` behind its own -/
theorem search_eq (hterm : p.term = some term) (hne : term ≠ [])
    (hlt : term.length < 2 ^ 64) (hd : d ≠ [])
    (hd' : d.length < 2 ^ 63)
    (hin : p.startOffset + (p.bytesDone + d.length) ≤ p.buffer.length)
    (hmem : p.bytesDone + d.length < 2 ^ 64 - 1)
    (hbytes : (p.buffer.drop p.startOffset).take (p.bytesDone + d.length) = p.done ++ d) :
    ∃ r, p.searchForTermAfterPreBuffering d.length = some (excess (p.done ++ d) term r) ∧
      FirstHit (Stands (p.done ++ d) term)
        (p.done.length - min p.done.length (term.length - 1))
        (p.done.length + d.length + 1 - term.length) r := by
  have hpos := List.length_pos_iff.mpr hne
  have hpos' := List.length_pos_iff.mpr hd
  have hdone := done_length (p := p) (by omega)
  have hlen : (p.done ++ d).length = p.bytesDone + d.length := by
    rw [List.length_append, hdone]
  have hsize : toSize d.length = d.length := toSize_natCast (by omega)
  have hbuff : addSize p.bytesDone d.length = p.bytesDone + d.length := addSize_of_lt (by omega)
  have hold : subSize (p.bytesDone + d.length) d.length = p.bytesDone := by
    rw [subSize_of_le (Nat.le_add_left _ _) (by omega), Nat.add_sub_cancel]
  have hi : (if p.bytesDone ≥ term.length then addSize (subSize p.bytesDone term.length) 1 else 0) =
      p.bytesDone - min p.bytesDone (term.length - 1) := by
    split
    · rw [subSize_of_le (by omega) (by omega), addSize_of_lt (by omega)]
      omega
    · omega
  obtain ⟨r, hr, hfirst⟩ := @searchLoop_spec p.buffer (p.done ++ d) term
    p.startOffset (by rw [hlen, hbytes]) (by omega) (by omega)
    (p.bytesDone + d.length + 2) (p.bytesDone - min p.bytesDone (term.length - 1)) (by omega)
    (by omega) (by omega) (by omega)
  rw [hlen] at hr hfirst
  refine ⟨r, ?_, ?_⟩
  · simp only [searchForTermAfterPreBuffering, hterm, Option.bind_some, hsize, hbuff, hold, hi]
    exact hr
  · rw [hdone]
    exact hfirst

theorem append_eq (hin : p.startOffset + p.bytesDone ≤ p.buffer.length)
    (hmem : p.buffer.length + d.length < 2 ^ 64 - 1) :
    ∃ buffer, (p.ensureCapacityForAdditionalDataOfLength d.length).bind (·.appendBytes d) =
        some { p with buffer := buffer } ∧
      p.startOffset + (p.bytesDone + d.length) ≤ buffer.length ∧
      (buffer.drop p.startOffset).take p.bytesDone = p.done ∧
      (buffer.drop p.startOffset).take (p.bytesDone + d.length) = p.done ++ d := by
  obtain ⟨q, hq⟩ := ensureCapacity_some (p := p) (n := d.length) hin (by omega)
  obtain ⟨grown, rfl, ⟨more, hmore⟩, -, hroom⟩ := ensureCapacity_length hin (by omega) hq
  have hfit : p.startOffset + p.bytesDone + d.length ≤ grown.length := hroom (by omega)
  have hdone : (grown.drop p.startOffset).take p.bytesDone = p.done := by
    rw [← hmore, drop_take_append hin]
    rfl
  have hall : ((AutoBuffer.overwrite grown (p.startOffset + p.bytesDone) d).drop
      p.startOffset).take (p.bytesDone + d.length) = p.done ++ d := by
    have h := @drop_take_overwrite grown d _ _
      (Nat.le_add_right p.startOffset p.bytesDone) hfit
    rw [Nat.add_sub_cancel_left, hdone] at h
    exact h
  refine ⟨AutoBuffer.overwrite grown (p.startOffset + p.bytesDone) d, ?_, ?_, ?_, hall⟩
  · rw [hq, Option.bind_some]
    unfold appendBytes
    simp only
    rw [memcpyTo_of_le hfit]
    rfl
  · rw [AutoBuffer.length_overwrite _ _ _ hfit]
    omega
  · have h := congrArg (List.take p.bytesDone) hall
    rw [List.take_take, Nat.min_eq_left (Nat.le_add_right _ _),
      List.take_left' (done_length hin)] at h
    exact h

/-- **Both ways agree**: bytes taken out of the prebuffer, and bytes put into the packet first. -/
theorem searches_agree (p : GCDAsyncReadPacket) (preBuffer : GCDAsyncSocketPreBuffer)
    (term d : Bytes) (hterm : p.term = some term) (hne : term ≠ [])
    (hlt : term.length < 2 ^ 64) (hmax : p.maxLength = 0)
    (hin : p.startOffset + p.bytesDone ≤ p.buffer.length) (hno : ¬ term <:+: p.done)
    (hpre : readable preBuffer = some d) (hd : d ≠ []) (hd' : d.length < 2 ^ 63)
    (hmem : p.buffer.length + d.length < 2 ^ 64 - 1) :
    ∃ k found q e, p.readLengthForTermWithPreBuffer preBuffer false = some (k, found) ∧
      (p.ensureCapacityForAdditionalDataOfLength d.length).bind (·.appendBytes d) = some q ∧
      q.searchForTermAfterPreBuffering d.length = some e ∧
      (found = true ↔ e ≠ -1) ∧ (found = true → (k : Int) = d.length - e) := by
  have hall : p.allowed d.length = d.length := by
    unfold allowed
    rw [if_neg (by omega)]
  obtain ⟨r, hr, hfirst⟩ := readLength_eq hterm hne (Or.inl hmax) (by omega) hin hpre hd hlt
    (by omega)
  obtain ⟨buffer, hq, hroom, hdone, hbytes⟩ := append_eq (d := d) hin hmem
  have hsame : ({ p with buffer := buffer } : GCDAsyncReadPacket).done = p.done := hdone
  obtain ⟨r', hr', hfirst'⟩ := search_eq (p := { p with buffer := buffer }) hterm hne hlt hd hd'
    hroom (by simp only; omega) (by rw [hsame]; exact hbytes)
  rw [hsame] at hr' hfirst'
  rw [hall] at hr hfirst
  obtain rfl := hfirst.unique hfirst'
  have hlen := done_length hin
  cases r with
  | none =>
    refine ⟨d.length, false, _, -1, hr, hq, hr', ?_, ?_⟩
    · exact ⟨fun h => absurd h Bool.false_ne_true, fun h => absurd rfl h⟩
    · intro h
      cases h
  | some i =>
    have hbound : i < p.done.length + d.length + 1 - term.length := hfirst.2.1
    have hge : p.done.length ≤ i + term.length := by
      by_contra hlt
      exact not_stands hno (by omega) hfirst.2.2.1
    refine ⟨_, true, _, _, hr, hq, hr', ?_, fun _ => ?_⟩
    · refine ⟨fun _ => ?_, fun _ => rfl⟩
      simp only [excess, List.length_append]
      omega
    · simp only [excess, List.length_append]
      omega

/-- the terminator begins in the packet and ends in the new bytes -/
theorem searches_agree_two :
    ∃ k found q e, readLengthForTermWithPreBuffer
        { initWithData (some [5, 13]) 0 0 0 (some [13, 10]) with bytesDone := 2 }
        ⟨100, [10, 9, 8, 0], 4, 100, 103⟩ false = some (k, found) ∧
      (ensureCapacityForAdditionalDataOfLength
        { initWithData (some [5, 13]) 0 0 0 (some [13, 10]) with bytesDone := 2 } 3).bind
        (·.appendBytes [10, 9, 8]) = some q ∧
      q.searchForTermAfterPreBuffering 3 = some e ∧
      (found = true ↔ e ≠ -1) ∧ (found = true → (k : Int) = 3 - e) :=
  searches_agree { initWithData (some [5, 13]) 0 0 0 (some [13, 10]) with bytesDone := 2 }
    ⟨100, [10, 9, 8, 0], 4, 100, 103⟩ [13, 10] [10, 9, 8] rfl (by decide) (by decide) rfl
    (by decide) (by decide) (by decide +kernel) (by decide) (by decide) (by decide)

end

end GCDAsyncReadPacket
