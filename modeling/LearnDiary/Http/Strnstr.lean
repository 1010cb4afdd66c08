import LearnDiary.Base.AutoBuffer

/-!
# `string_strnstr` (comm/http.cc)

`src` is the memory from the pointer to the end of the allocated block.  `strnlen` reads it up to
`pos1` bytes or the first NUL; running off the block has no meaning (`wild`).

* `strnstr_eq`     on the bytes a buffer holds the result is the first occurrence before the first NUL;
* `strnstr_bound`  a hit lies inside the first `pos1` bytes, whatever the block holds;
* `strnstr_neg`    a negative length (`2^31` and more in `(int)`) finds nothing;
* `strnstrReads`   the bytes the search looks at; `strnlenReads_le_iff` says when it stays among the
  first `k`, and `strnstr_congr` that it does not depend on the others then.
-/

namespace Http

inductive Search where
  | found (p : Nat)
  | null
  | wild
deriving DecidableEq

/-- `strnlen(src, n)`; `none` when it reads past the block -/
def strnlen : Bytes → Nat → Option Nat
  | _, 0 => some 0
  | [], _ + 1 => none
  | c :: src, n + 1 => if c = 0 then some 0 else (strnlen src n).map (· + 1)

/-- `while (pos1 >= l2) { pos1--; if (!memcmp(src, sfind, l2)) return src; src++; }` -/
def strnstrLoop (sfind : Bytes) : Nat → Bytes → Search
  | 0, _ => .null
  | pos1 + 1, src =>
    if sfind.length ≤ pos1 + 1 then
      if src.take sfind.length = sfind then .found 0
      else
        match strnstrLoop sfind pos1 (src.drop 1) with
        | .found p => .found (p + 1)
        | r => r
    else .null

/-- `pos1 = (pos1 > l1) ? l1 : pos1` -/
def clip (pos1 l1 : Int) : Int := if pos1 > l1 then l1 else pos1

def strnstr (src sfind : Bytes) (pos1 : Int) : Search :=
  if sfind.length = 0 then .found 0
  else
    match strnlen src (toSizeT pos1) with
    | none => .wild
    | some l1 => strnstrLoop sfind (clip pos1 (toInt32 l1)).toNat src

abbrev findC (pat s : Bytes) : Option Nat := Find.findUpTo notNul pat s

def Search.ofOption : Option Nat → Search
  | some p => .found p
  | none => .null

/-! ## `strnlen` -/

theorem strnlen_eq (src : Bytes) (n : Nat) (h : n ≤ src.length) :
    strnlen src n = some (cstr (src.take n)).length := by
  induction src generalizing n with
  | nil =>
    have e : n = 0 := Nat.le_zero.mp h
    rw [e]
    rfl
  | cons c src ih =>
    cases n with
    | zero => rfl
    | succ n =>
      rw [List.take_succ_cons, strnlen, ih n (Nat.le_of_succ_le_succ h)]
      unfold cstr Find.upTo
      by_cases hc : c = 0
      · simp [hc, notNul]
      · have h0 : notNul c = true := by simp [notNul, hc]
        rw [if_neg hc, List.takeWhile_cons_of_pos h0]
        rfl

theorem strnlen_le {src : Bytes} {n l : Nat} (h : strnlen src n = some l) :
    l ≤ n ∧ l ≤ src.length := by
  induction src generalizing n l with
  | nil =>
    cases n with
    | zero => cases h; exact ⟨Nat.le_refl _, Nat.zero_le _⟩
    | succ n => cases h
  | cons c src ih =>
    cases n with
    | zero => cases h; exact ⟨Nat.le_refl _, Nat.zero_le _⟩
    | succ n =>
      unfold strnlen at h
      split at h
      · cases h; exact ⟨Nat.zero_le _, Nat.zero_le _⟩
      · obtain ⟨l', hl', rfl⟩ := Option.map_eq_some_iff.mp h
        obtain ⟨h1, h2⟩ := ih hl'
        exact ⟨Nat.succ_le_succ h1, Nat.succ_le_succ h2⟩

/-! ## the loop -/

theorem strnstrLoop_eq (sfind : Bytes) (hs : sfind ≠ []) (n : Nat) (src : Bytes)
    (h : n ≤ src.length) :
    strnstrLoop sfind n src = Search.ofOption (Find.find sfind (src.take n)) := by
  induction n generalizing src with
  | zero =>
    rw [List.take_zero]
    simp [strnstrLoop, Find.find, hs, Search.ofOption]
  | succ n ih =>
    cases src with
    | nil => exact absurd h (Nat.not_succ_le_zero n)
    | cons c src =>
      have hlen : (src.take n).length = n := by
        rw [List.length_take]
        exact Nat.min_eq_left (Nat.le_of_succ_le_succ h)
      have hpre : sfind.length ≤ n + 1 →
          ((c :: src).take sfind.length = sfind ↔ sfind <+: c :: src.take n) := by
        intro hle
        rw [← List.take_succ_cons, List.prefix_iff_eq_take, List.take_take, Nat.min_eq_left hle]
        exact eq_comm
      unfold strnstrLoop
      rw [List.take_succ_cons]
      unfold Find.find
      by_cases hle : sfind.length ≤ n + 1
      · rw [if_pos hle]
        by_cases hp : (c :: src).take sfind.length = sfind
        · rw [if_pos hp, if_pos ((hpre hle).mp hp)]
          rfl
        · rw [if_neg hp, if_neg (fun hq => hp ((hpre hle).mpr hq)), List.drop_succ_cons,
            List.drop_zero, ih src (Nat.le_of_succ_le_succ h)]
          cases Find.find sfind (src.take n) <;> rfl
      · have hnp : ¬ sfind <+: c :: src.take n := by
          intro hq
          have := hq.length_le
          rw [List.length_cons, hlen] at this
          exact hle this
        rw [if_neg hle, if_neg hnp]
        cases e : Find.find sfind (src.take n) with
        | none => rfl
        | some p =>
          have := Find.find_add_le e
          rw [hlen] at this
          omega

/-! ## the search -/

theorem cstr_take_cstr (s : Bytes) : s.take (cstr s).length = cstr s := by
  exact (List.prefix_iff_eq_take.mp (Find.upTo_isPrefix notNul s)).symm

theorem strnlen_some {src : Bytes} {n l : Nat} (h : strnlen src n = some l) :
    l = (cstr (src.take n)).length := by
  induction src generalizing n l with
  | nil =>
    cases n with
    | zero => cases h; rfl
    | succ n => cases h
  | cons c src ih =>
    cases n with
    | zero => cases h; rfl
    | succ n =>
      unfold strnlen at h
      unfold cstr Find.upTo
      by_cases hc : c = 0
      · rw [if_pos hc] at h
        cases h
        simp [hc, notNul]
      · rw [if_neg hc] at h
        obtain ⟨l', hl', rfl⟩ := Option.map_eq_some_iff.mp h
        rw [List.take_succ_cons, List.takeWhile_cons_of_pos (by simp [notNul, hc]), ih hl']
        rfl

/-- a search for `n < 2^31` bytes that stays in the block: the first occurrence before the first
NUL -/
theorem strnstr_of_ne_wild {src sfind : Bytes} (hs : sfind ≠ []) {n : Nat} (hn : n < 2 ^ 31)
    (h : strnstr src sfind n ≠ .wild) :
    strnstr src sfind n = Search.ofOption (findC sfind (src.take n)) := by
  unfold strnstr at h ⊢
  rw [if_neg (fun e => hs (List.length_eq_zero_iff.mp e)), toSizeT_of_lt (by omega)] at h ⊢
  cases e : strnlen src n with
  | none =>
    rw [e] at h
    exact absurd rfl h
  | some l =>
    obtain ⟨h1, h2⟩ := strnlen_le e
    have hl := strnlen_some e
    have hmin : (clip n (toInt32 l)).toNat = l := by
      rw [toInt32_of_lt (by omega)]
      unfold clip
      split <;> omega
    have ht := cstr_take_cstr (src.take n)
    rw [← hl, List.take_take, Nat.min_eq_left h1] at ht
    simp only [hmin]
    rw [strnstrLoop_eq sfind hs _ _ h2, ht]
    rfl

theorem strnstr_eq (src sfind : Bytes) (hs : sfind ≠ []) (n : Nat) (h : n ≤ src.length)
    (hn : n < 2 ^ 31) :
    strnstr src sfind n = Search.ofOption (findC sfind (src.take n)) := by
  refine strnstr_of_ne_wild hs hn ?_
  have hl := strnlen_eq src n h
  have hlt := (strnlen_le hl).2
  unfold strnstr
  rw [if_neg (fun e => hs (List.length_eq_zero_iff.mp e)), toSizeT_of_lt (by omega), hl]
  simp only
  rw [strnstrLoop_eq sfind hs _ _ (by have := toInt32_le (cstr (src.take n)).length; unfold clip; split <;> omega)]
  cases Find.find sfind _ <;> exact Search.noConfusion

theorem strnstr_bound {src sfind : Bytes} {pos1 : Int} {p : Nat} (hs : sfind ≠ [])
    (h : strnstr src sfind pos1 = .found p) :
    ((p + sfind.length : Nat) : Int) ≤ pos1 ∧ p + sfind.length ≤ src.length ∧
      (src.drop p).take sfind.length = sfind := by
  unfold strnstr at h
  rw [if_neg (fun e => hs (List.length_eq_zero_iff.mp e))] at h
  split at h
  · cases h
  · rename_i l hl
    obtain ⟨_, h2⟩ := strnlen_le hl
    have h3 := toInt32_le l
    generalize hm : clip pos1 (toInt32 l) = m at h
    have hm1 : m ≤ pos1 := by rw [← hm]; unfold clip; split <;> omega
    have hm2 : m ≤ l := by rw [← hm]; unfold clip; split <;> omega
    have hlt : m.toNat ≤ src.length := by omega
    rw [strnstrLoop_eq sfind hs _ _ hlt] at h
    cases e : Find.find sfind (src.take m.toNat) with
    | none => rw [e] at h; cases h
    | some q =>
      rw [e] at h
      cases h
      have h4 := Find.find_add_le e
      have h5 := (Find.find_spec e).1
      have hpos : 0 < sfind.length := List.length_pos_iff.mpr hs
      rw [List.length_take, Nat.min_eq_left hlt] at h4
      refine ⟨by omega, by omega, ?_⟩
      have h6 := Find.prefix_drop_append (src.drop m.toNat) h5
      rw [List.take_append_drop] at h6
      exact (List.prefix_iff_eq_take.mp h6).symm

/-- whether the scan stays in the block does not depend on what is looked for -/
theorem strnstr_wild_iff {src sfind sfind' : Bytes} {pos1 : Int} (hs : sfind ≠ []) (hs' : sfind' ≠ []) :
    strnstr src sfind pos1 = .wild ↔ strnstr src sfind' pos1 = .wild := by
  have key : ∀ {t : Bytes}, t ≠ [] →
      (strnstr src t pos1 = .wild ↔ strnlen src (toSizeT pos1) = none) := by
    intro t ht
    unfold strnstr
    rw [if_neg (fun e => ht (List.length_eq_zero_iff.mp e))]
    cases e : strnlen src (toSizeT pos1) with
    | none => simp
    | some l =>
      have hle := (strnlen_le e).2
      have h1 := toInt32_le l
      have h2 : (clip pos1 (toInt32 l)).toNat ≤ src.length := by
        unfold clip
        split <;> omega
      simp only [strnstrLoop_eq t ht _ _ h2]
      cases Find.find t (src.take (clip pos1 (toInt32 l)).toNat) <;> simp [Search.ofOption]
  rw [key hs, key hs']

theorem strnstr_neg {src sfind : Bytes} {pos1 : Int} (hs : sfind ≠ []) (hneg : pos1 < 0) (p : Nat) :
    strnstr src sfind pos1 ≠ .found p := by
  intro h
  have := (strnstr_bound hs h).1
  omega

/-! ## the reads of a search -/

/-- how many bytes `strnlen(src, n)` looks at; one more than there are where it leaves the block -/
def strnlenReads : Bytes → Nat → Nat
  | _, 0 => 0
  | [], _ + 1 => 1
  | c :: src, n + 1 => if c = 0 then 1 else strnlenReads src n + 1

/-- how many bytes the loop looks at -/
def strnstrLoopReads (sfind : Bytes) : Nat → Bytes → Nat
  | 0, _ => 0
  | pos1 + 1, src =>
    if sfind.length ≤ pos1 + 1 then
      if src.take sfind.length = sfind then sfind.length
      else max sfind.length (strnstrLoopReads sfind pos1 (src.drop 1) + 1)
    else 0

/-- how many bytes `string_strnstr` looks at -/
def strnstrReads (src sfind : Bytes) (pos1 : Int) : Nat :=
  if sfind.length = 0 then 0
  else
    match strnlen src (toSizeT pos1) with
    | none => strnlenReads src (toSizeT pos1)
    | some l1 => max (strnlenReads src (toSizeT pos1))
        (strnstrLoopReads sfind (clip pos1 (toInt32 l1)).toNat src)

theorem strnlen_le_reads {src : Bytes} {n l : Nat} (h : strnlen src n = some l) :
    l ≤ strnlenReads src n := by
  induction src generalizing n l with
  | nil =>
    cases n with
    | zero =>
      cases h
      exact Nat.le_refl 0
    | succ n => cases h
  | cons c src ih =>
    cases n with
    | zero =>
      cases h
      exact Nat.le_refl 0
    | succ n =>
      unfold strnlen at h
      unfold strnlenReads
      by_cases hc : c = 0
      · rw [if_pos hc] at h ⊢
        cases h
        exact Nat.zero_le 1
      · rw [if_neg hc] at h ⊢
        obtain ⟨l', hl', rfl⟩ := Option.map_eq_some_iff.mp h
        exact Nat.succ_le_succ (ih hl')

theorem strnstrLoopReads_le (sfind : Bytes) (n : Nat) (src : Bytes) :
    strnstrLoopReads sfind n src ≤ n := by
  induction n generalizing src with
  | zero => exact Nat.le_refl 0
  | succ n ih =>
    have h := ih (src.drop 1)
    unfold strnstrLoopReads
    split
    · split
      · assumption
      · omega
    · exact Nat.zero_le _

theorem strnstrReads_eq {src sfind : Bytes} (hs : sfind ≠ []) (pos1 : Int) :
    strnstrReads src sfind pos1 = strnlenReads src (toSizeT pos1) := by
  unfold strnstrReads
  rw [if_neg (fun e => hs (List.length_eq_zero_iff.mp e))]
  cases e : strnlen src (toSizeT pos1) with
  | none => rfl
  | some l =>
    have h1 := strnlen_le_reads e
    have h2 := toInt32_le l
    have h3 := strnstrLoopReads_le sfind (clip pos1 (toInt32 l)).toNat src
    have h4 : (clip pos1 (toInt32 l)).toNat ≤ l := by
      unfold clip
      split <;> omega
    exact Nat.max_eq_left (by omega)

theorem strnlenReads_le_iff (src : Bytes) (n : Nat) {k : Nat} (hk : k ≤ src.length) :
    strnlenReads src n ≤ k ↔ n ≤ k ∨ 0 ∈ src.take k := by
  induction src generalizing n k with
  | nil =>
    have h0 : k = 0 := Nat.le_zero.mp hk
    subst h0
    cases n with
    | zero => exact ⟨fun h => Or.inl h, fun _ => Nat.le_refl 0⟩
    | succ n =>
      constructor
      · intro h
        exact absurd h (Nat.not_succ_le_zero 0)
      · rintro (h | h)
        · exact absurd h (Nat.not_succ_le_zero n)
        · cases h
  | cons c src ih =>
    cases n with
    | zero => exact ⟨fun h => Or.inl h, fun _ => Nat.zero_le k⟩
    | succ n =>
      cases k with
      | zero =>
        constructor
        · intro h
          unfold strnlenReads at h
          split at h
          · omega
          · omega
        · rintro (h | h)
          · exact absurd h (Nat.not_succ_le_zero n)
          · cases h
      | succ k =>
        have hk' : k ≤ src.length := Nat.le_of_succ_le_succ hk
        unfold strnlenReads
        rw [List.take_succ_cons, List.mem_cons]
        by_cases hc : c = 0
        · rw [if_pos hc]
          exact ⟨fun _ => Or.inr (Or.inl hc.symm), fun _ => Nat.succ_le_succ (Nat.zero_le k)⟩
        · rw [if_neg hc, Nat.succ_le_succ_iff, ih _ hk', Nat.succ_le_succ_iff]
          exact or_congr Iff.rfl ⟨Or.inr, fun h => h.resolve_left (fun e => hc e.symm)⟩

theorem strnlen_congr {src src' : Bytes} {n k : Nat} (h : src.take k = src'.take k)
    (hk : k ≤ src.length) (hk' : k ≤ src'.length) (hr : strnlenReads src n ≤ k) :
    strnlen src n = strnlen src' n := by
  induction n generalizing src src' k with
  | zero => rw [strnlen, strnlen]
  | succ n ih =>
    cases src with
    | nil =>
      have h0 : k = 0 := Nat.le_zero.mp hk
      subst h0
      exact absurd hr (Nat.not_succ_le_zero 0)
    | cons c src =>
      unfold strnlenReads at hr
      cases k with
      | zero =>
        split at hr
        · omega
        · omega
      | succ k =>
        cases src' with
        | nil => exact absurd hk' (Nat.not_succ_le_zero k)
        | cons c' src' =>
          rw [List.take_succ_cons, List.take_succ_cons] at h
          obtain ⟨rfl, ht⟩ := List.cons.inj h
          unfold strnlen
          by_cases hc : c = 0
          · rw [if_pos hc, if_pos hc]
          · rw [if_neg hc] at hr
            rw [if_neg hc, if_neg hc, ih ht (Nat.le_of_succ_le_succ hk)
              (Nat.le_of_succ_le_succ hk') (Nat.le_of_succ_le_succ hr)]

/-- **A search depends on the bytes it looks at.** -/
theorem strnstr_congr {src src' sfind : Bytes} {pos1 : Int} {k : Nat} (hs : sfind ≠ [])
    (h : src.take k = src'.take k) (hk : k ≤ src.length) (hk' : k ≤ src'.length)
    (hr : strnlenReads src (toSizeT pos1) ≤ k) :
    strnstr src' sfind pos1 = strnstr src sfind pos1 := by
  have hlen := strnlen_congr h hk hk' hr
  unfold strnstr
  rw [if_neg (fun e => hs (List.length_eq_zero_iff.mp e)),
    if_neg (fun e => hs (List.length_eq_zero_iff.mp e)), ← hlen]
  cases e : strnlen src (toSizeT pos1) with
  | none => rfl
  | some l =>
    have h1 := strnlen_le_reads e
    have h2 := toInt32_le l
    have hm : (clip pos1 (toInt32 l)).toNat ≤ k := by
      unfold clip
      split <;> omega
    have ht := congrArg (List.take (clip pos1 (toInt32 l)).toNat) h
    rw [List.take_take, List.take_take, Nat.min_eq_left hm] at ht
    simp only
    rw [strnstrLoop_eq sfind hs _ _ (by omega), strnstrLoop_eq sfind hs _ _ (by omega), ht]

theorem strnstr_found_le {src sfind : Bytes} {pos1 : Int} {p : Nat} (hs : sfind ≠ [])
    (h : strnstr src sfind pos1 = .found p) :
    p + sfind.length ≤ strnstrReads src sfind pos1 := by
  rw [strnstrReads_eq hs]
  unfold strnstr at h
  rw [if_neg (fun e => hs (List.length_eq_zero_iff.mp e))] at h
  split at h
  · cases h
  · rename_i l hl
    have h1 := strnlen_le_reads hl
    have h2 := (strnlen_le hl).2
    have h3 := toInt32_le l
    have hm : (clip pos1 (toInt32 l)).toNat ≤ l := by
      unfold clip
      split <;> omega
    rw [strnstrLoop_eq sfind hs _ _ (by omega)] at h
    cases e : Find.find sfind (src.take (clip pos1 (toInt32 l)).toNat) with
    | none =>
      rw [e] at h
      cases h
    | some q =>
      rw [e] at h
      cases h
      have h4 := Find.find_add_le e
      rw [List.length_take] at h4
      omega

theorem strnstr_ne_wild (src : Bytes) {sfind : Bytes} (pos1 : Int) (hs : sfind ≠ [])
    (h : strnstrReads src sfind pos1 ≤ src.length) : strnstr src sfind pos1 ≠ .wild := by
  rw [strnstrReads_eq hs] at h
  have hlen : strnlen src (toSizeT pos1) ≠ none := by
    generalize toSizeT pos1 = n at h
    induction src generalizing n with
    | nil =>
      cases n with
      | zero => exact Option.some_ne_none _
      | succ n => exact absurd h (Nat.not_succ_le_zero 0)
    | cons c src ih =>
      cases n with
      | zero => exact Option.some_ne_none _
      | succ n =>
        unfold strnlenReads at h
        unfold strnlen
        by_cases hc : c = 0
        · rw [if_pos hc]
          exact Option.some_ne_none _
        · rw [if_neg hc] at h ⊢
          rw [Ne, Option.map_eq_none_iff]
          exact ih n (Nat.le_of_succ_le_succ h)
  unfold strnstr
  rw [if_neg (fun e => hs (List.length_eq_zero_iff.mp e))]
  cases e : strnlen src (toSizeT pos1) with
  | none => exact absurd e hlen
  | some l =>
    have h1 := (strnlen_le e).2
    have h2 := toInt32_le l
    have hm : (clip pos1 (toInt32 l)).toNat ≤ src.length := by
      unfold clip
      split <;> omega
    simp only [strnstrLoop_eq sfind hs _ _ hm]
    cases Find.find sfind (src.take (clip pos1 (toInt32 l)).toNat) with
    | none => exact Search.noConfusion
    | some p => exact Search.noConfusion

end Http
