import LearnDiary.Http.Strnstr

/-!
# What `string_strnstr` finds (comm/http.cc)

`stringStrnstr` is the function with its `(int)strlen(sfind)`, which the search of the parser does
not have: there the text looked for is a literal.

* `stringStrnstr_eq`        a text of fewer than `2^31` bytes is searched as in the parser;
* `stringStrnstr_searches`  the first place before the length and before the first NUL, or none;
* `stringStrnstr_wraps`     a text of `2^32` bytes is found everywhere.
-/

namespace Http

/-- `string_strnstr`; with a negative `l2` the `memcmp` is for more bytes than there are -/
def stringStrnstr (src sfind : Bytes) (pos1 : Int) : Search :=
  let l2 := toInt32 (cstr sfind).length
  if l2 = 0 then .found 0
  else
    match strnlen src (toSizeT pos1) with
    | none => .wild
    | some l1 =>
      let pos1 := clip pos1 (toInt32 l1)
      if 0 < l2 then strnstrLoop (sfind.take l2.toNat) pos1.toNat src
      else if l2 ≤ pos1 then .wild
      else .null

/-- how many bytes of `src` it looks at -/
def stringStrnstrReads (src sfind : Bytes) (pos1 : Int) : Nat :=
  let l2 := toInt32 (cstr sfind).length
  if l2 = 0 then 0
  else
    match strnlen src (toSizeT pos1) with
    | none => strnlenReads src (toSizeT pos1)
    | some l1 =>
      let pos1' := clip pos1 (toInt32 l1)
      max (strnlenReads src (toSizeT pos1))
        (if 0 < l2 then strnstrLoopReads (sfind.take l2.toNat) pos1'.toNat src
        else if l2 ≤ pos1' then toSizeT l2
        else 0)

/-- `sfind` stands at `p`, inside of the first `n` bytes and before the first NUL -/
def OccursAt (src sfind : Bytes) (n p : Nat) : Prop :=
  p + sfind.length ≤ min n (src.idxOf 0) ∧ sfind <+: src.drop p

/-- what the search is for, with `n` bytes or a NUL in the block -/
structure Searches (src sfind : Bytes) (n : Nat) : Prop where
  reads : stringStrnstrReads src sfind n ≤ n
  found (h : n ≤ src.length ∨ 0 ∈ src) (p : Nat) : stringStrnstr src sfind n = .found p ↔
    OccursAt src sfind n p ∧ ∀ q < p, ¬ OccursAt src sfind n q
  null (h : n ≤ src.length ∨ 0 ∈ src) : stringStrnstr src sfind n = .null ↔
    ∀ p, ¬ OccursAt src sfind n p

section
variable {src sfind : Bytes} {n p : Nat}

theorem cstr_of_nul (h : 0 ∉ sfind) : cstr sfind = sfind :=
  Find.upTo_eq_self notNul (notNul_of_not_mem h)

theorem cstr_take (src : Bytes) (n : Nat) : cstr (src.take n) = src.take (min n (src.idxOf 0)) := by
  have hstop : (fun c => !notNul c) = (fun c : UInt8 => c == 0) := by
    funext c
    unfold notNul
    exact Bool.not_not _
  unfold cstr Find.upTo
  rw [List.takeWhile_eq_take_findIdx_not, List.findIdx_take, hstop, List.take_take]
  unfold List.idxOf
  congr 1
  omega

theorem occursAt_iff (hs : sfind ≠ []) : OccursAt src sfind n p ↔
    p ≤ (cstr (src.take n)).length ∧ sfind <+: (cstr (src.take n)).drop p := by
  have hpos : 0 < sfind.length := List.length_pos_iff.mpr hs
  unfold OccursAt
  rw [cstr_take]
  generalize min n (src.idxOf 0) = m
  constructor
  · rintro ⟨hm, hp⟩
    have hlen := hp.length_le
    rw [List.length_drop] at hlen
    have hin : p + sfind.length ≤ (src.take m).length := by
      rw [List.length_take]
      omega
    refine ⟨by omega, Find.prefix_drop_of_append (t := src.drop m) hin ?_⟩
    rwa [List.take_append_drop]
  · rintro ⟨hle, hp⟩
    have hlen := hp.length_le
    rw [List.length_drop] at hlen
    have hfit := List.length_take_le m src
    have happ := Find.prefix_drop_append (src.drop m) hp
    rw [List.take_append_drop] at happ
    exact ⟨by omega, happ⟩

theorem strnlenReads_le (src : Bytes) (n : Nat) : strnlenReads src n ≤ n := by
  induction src generalizing n with
  | nil =>
    cases n with
    | zero => exact Nat.le_refl 0
    | succ n => exact Nat.succ_le_succ (Nat.zero_le n)
  | cons c src ih =>
    cases n with
    | zero => exact Nat.le_refl 0
    | succ n =>
      unfold strnlenReads
      split
      · exact Nat.succ_le_succ (Nat.zero_le n)
      · exact Nat.succ_le_succ (ih n)

theorem stringStrnstr_eq (h0 : 0 ∉ sfind) (hl : sfind.length < 2 ^ 31) (pos1 : Int) :
    stringStrnstr src sfind pos1 = strnstr src sfind pos1 ∧
      stringStrnstrReads src sfind pos1 = strnstrReads src sfind pos1 := by
  unfold stringStrnstr stringStrnstrReads strnstr strnstrReads
  dsimp only
  rw [cstr_of_nul h0, toInt32_of_lt hl, Int.toNat_natCast, List.take_length]
  by_cases hs : sfind.length = 0
  · rw [if_pos (by omega), if_pos hs, if_pos (by omega), if_pos hs]
    exact ⟨rfl, rfl⟩
  · rw [if_neg (by omega), if_neg hs, if_neg (by omega), if_neg hs]
    cases strnlen src (toSizeT pos1) with
    | none => exact ⟨rfl, rfl⟩
    | some l1 =>
      dsimp only
      rw [if_pos (by omega), if_pos (by omega)]
      exact ⟨rfl, rfl⟩

/-- a text of `2^32` bytes has the length 0 as an `int` -/
theorem stringStrnstr_wraps (h0 : 0 ∉ sfind) (hl : sfind.length = 2 ^ 32) (pos1 : Int) :
    stringStrnstr src sfind pos1 = .found 0 := by
  have hzero : toInt32 ((2 ^ 32 : Nat) : Int) = 0 := by
    unfold toInt32
    decide
  unfold stringStrnstr
  dsimp only
  rw [cstr_of_nul h0, hl, hzero, if_pos rfl]

end

/-- **The search.**  A text of fewer than `2^31` bytes is found at its first place in the first `n`
bytes before the NUL, and nothing behind them is looked at. -/
theorem stringStrnstr_searches (src sfind : Bytes) (n : Nat) (hn : n < 2 ^ 31) (hs : sfind ≠ [])
    (h0 : 0 ∉ sfind) (hl : sfind.length < 2 ^ 31) : Searches src sfind n := by
  have heq : stringStrnstr src sfind n = strnstr src sfind n := (stringStrnstr_eq h0 hl n).1
  have hreads : stringStrnstrReads src sfind n = strnstrReads src sfind n :=
    (stringStrnstr_eq h0 hl n).2
  have hsize : strnstrReads src sfind n = strnlenReads src n := by
    rw [strnstrReads_eq hs, toSizeT_of_lt (by omega)]
  have hout : n ≤ src.length ∨ 0 ∈ src →
      strnstr src sfind n = Search.ofOption (Find.find sfind (cstr (src.take n))) := by
    intro h
    refine strnstr_of_ne_wild hs hn (strnstr_ne_wild src n hs ?_)
    rw [hsize]
    exact (strnlenReads_le_iff src n (Nat.le_refl _)).mpr (by rwa [List.take_length])
  constructor
  · rw [hreads, hsize]
    exact strnlenReads_le src n
  · intro h p
    have hfound : Search.ofOption (Find.find sfind (cstr (src.take n))) = .found p ↔
        Find.find sfind (cstr (src.take n)) = some p := by
      cases Find.find sfind (cstr (src.take n)) <;> simp [Search.ofOption]
    rw [heq, hout h, hfound, Find.find_some_iff, occursAt_iff hs]
    refine and_congr_right fun hp => forall₂_congr fun q hq => ?_
    rw [occursAt_iff hs, and_iff_right (hq.le.trans hp.1)]
  · intro h
    have hnull : Search.ofOption (Find.find sfind (cstr (src.take n))) = .null ↔
        Find.find sfind (cstr (src.take n)) = none := by
      cases Find.find sfind (cstr (src.take n)) <;> simp [Search.ofOption]
    rw [heq, hout h, hnull, Find.find_eq_none]
    refine forall_congr' fun p => ?_
    rw [occursAt_iff hs, not_and]

/-- CR LF in the second half of four bytes -/
theorem stringStrnstr_searches_crlf : Searches (ascii "a\r\r\nb") (ascii "\r\n") 4 :=
  stringStrnstr_searches (ascii "a\r\r\nb") (ascii "\r\n") 4 (by decide) (by decide) (by decide)
    (by decide)

/-- a text of `2^32` bytes in no bytes -/
theorem stringStrnstr_long : ¬ ∀ (src sfind : Bytes) (n : Nat), n < 2 ^ 31 → sfind ≠ [] →
    0 ∉ sfind → Searches src sfind n := by
  intro h
  have hlen : (List.replicate (2 ^ 32) (65 : UInt8)).length = 2 ^ 32 := List.length_replicate
  have hnul : (0 : UInt8) ∉ List.replicate (2 ^ 32) (65 : UInt8) := fun hm =>
    absurd (List.eq_of_mem_replicate hm) (by decide)
  have hs : List.replicate (2 ^ 32) (65 : UInt8) ≠ [] := fun hnil => by
    rw [hnil] at hlen
    cases hlen
  have hsearch := h [] (List.replicate (2 ^ 32) 65) 0 (by decide) hs hnul
  have hat := (hsearch.found (Or.inl (Nat.le_refl 0)) 0).mp (stringStrnstr_wraps hnul hlen _)
  have hfit := hat.1.1
  rw [hlen] at hfit
  exact absurd (hfit.trans (Nat.min_le_left _ _)) (by decide)

end Http
