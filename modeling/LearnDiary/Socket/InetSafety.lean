import LearnDiary.Socket.InetText

/-!
# When `socket_inet_pton6` stays in its arrays (comm/socket/unix_socket.cc)

Behind `::` the cursor goes to `addr_end - (coloncount + 1)`, with no look at where `an_addr` starts.
Eight colons behind a `::` put it in front of the array, and the next number is stored there.

* `scanHx_stop`      a number ends at a colon;
* `loop_none_iff`    where the loop leaves its arrays, number after number;
* `pton6_none_iff`   the texts for which the function has no outcome;
* `pton6_safe`       for all others it is safe.
-/

namespace InetText
open Nat64 (memcpy)

/-- `socket_inet_pton6(src, dst)`, with the memory from `dst` on -/
def inetPton6 (src dst : Bytes) : Option (Bool × Bytes) :=
  (pton6 src).map fun r => r.elim (false, dst) fun an_addr => (true, memcpy dst 0 an_addr)

/-- the function ends inside of its arrays, and writes 16 bytes to `dst` or none -/
def Safe (src : Bytes) : Prop :=
  ∀ dst : Bytes, 16 ≤ dst.length → ∃ ret dst', inetPton6 src dst = some (ret, dst') ∧
    dst'.length = dst.length ∧ dst'.drop 16 = dst.drop 16 ∧ (ret = false → dst' = dst)

/-- a text that `%hx` reads to its end -/
def Number (t : Bytes) : Prop := t.length < 2 ^ 31 ∧ ∃ word, scanHx t = some (word, t.length)

/-- a number at the front with more characters than an `int` counts -/
def Huge (s : Bytes) : Prop := ∃ word n, scanHx s = some (word, n) ∧ 2 ^ 31 ≤ n

/-- the text behind a colon at its start -/
def skipColon : Bytes → Bytes
  | 58 :: t => t
  | s => s

/-- the text is at most `room` numbers with a colon behind each of them, and then a huge number, or a
second colon and a text with `Q` -/
def Behind (Q : Bytes → Prop) (room : Nat) (s : Bytes) : Prop :=
  ∃ (tokens : List Bytes) (rest : Bytes), tokens.length ≤ room ∧ (∀ t ∈ tokens, Number t) ∧
    58 :: s = tokens.flatMap (58 :: ·) ++ 58 :: rest ∧
    (Huge rest ∨ ∃ post, rest = 58 :: post ∧ Q post)

/-- a text behind `::` with eight colons and a number, or with a count that is no `int` -/
def Beyond (post : Bytes) : Prop :=
  2 ^ 31 ≤ post.count 58 + 1 ∨ (8 ≤ post.count 58 ∧ (scanHx (skipColon post)).isSome) ∨
    Behind (fun _ => False) (post.count 58) (skipColon post)

/-- `::` and a text with a dot -/
def Dotted (src addrstart : Bytes) : Prop := src = 58 :: 58 :: addrstart ∧ 46 ∈ addrstart

/-- the texts that lead out of the arrays -/
def Overrun (src : Bytes) : Prop :=
  120 ∉ src ∧
    ((∃ addrstart, Dotted src addrstart ∧ 58 ∈ addrstart ∧ Huge addrstart) ∨
      ((∀ addrstart, ¬ Dotted src addrstart) ∧ Behind Beyond 7 (skipColon src)))

/-! ## `%hx` -/

section
variable {a b s t r : Bytes} {w n : Nat}

theorem takeWhile_stop {p : UInt8 → Bool} (hp : p 58 = false) (a b : Bytes) :
    (a ++ 58 :: b).takeWhile p = a.takeWhile p := by
  induction a with
  | nil => exact List.takeWhile_cons_of_neg (by simp [hp])
  | cons c a ih =>
    rw [List.cons_append, List.takeWhile_cons, List.takeWhile_cons, ih]

theorem signAt_stop (a b : Bytes) : StringCast.signAt (a ++ 58 :: b) = StringCast.signAt a := by
  cases a with
  | nil => rfl
  | cons c a =>
    unfold StringCast.signAt
    split
    · rename_i h
      cases h
      rfl
    · rename_i h
      cases h
      rfl
    · rename_i h1 h2
      split
      · rename_i h
        cases h
        exact absurd rfl (h1 _)
      · rename_i h
        cases h
        exact absurd rfl (h2 _)
      · rfl

theorem skip0x_stop (a b : Bytes) : skip0x (a ++ 58 :: b) = skip0x a := by
  match a with
  | [] => rfl
  | [c] =>
    have hone : skip0x [c] = 0 := by
      unfold skip0x
      split
      · rename_i h
        cases h
      · rfl
    rw [hone]
    unfold skip0x
    split
    · rename_i h
      cases h
      rfl
    · rfl
  | c :: x :: a =>
    unfold skip0x
    split
    · rename_i h
      cases h
      rfl
    · rename_i h1
      split
      · rename_i h
        cases h
        exact absurd rfl (h1 _ _)
      · rfl

theorem signAt_le (s : Bytes) : (StringCast.signAt s).2 ≤ s.length := by
  unfold StringCast.signAt
  split
  · exact Nat.succ_le_succ (Nat.zero_le _)
  · exact Nat.succ_le_succ (Nat.zero_le _)
  · exact Nat.zero_le _

theorem skip0x_le (s : Bytes) : skip0x s ≤ s.length := by
  unfold skip0x
  split
  · simp only [List.length_cons]
    split <;> omega
  · exact Nat.zero_le _

theorem scanHx_le (h : scanHx s = some (w, n)) : n ≤ s.length := by
  unfold scanHx at h
  dsimp only at h
  generalize hspaces : (s.takeWhile isspace).length = spaces at h
  have h1 : spaces ≤ s.length := hspaces ▸ (List.takeWhile_sublist _).length_le
  have h2 := signAt_le (s.drop spaces)
  generalize hsign : StringCast.signAt (s.drop spaces) = sign at h h2
  have h3 := skip0x_le (s.drop (spaces + sign.2))
  generalize skip0x (s.drop (spaces + sign.2)) = skip at h h3
  have h4 := (List.takeWhile_sublist Inet6.isHex
    (l := (s.drop (spaces + sign.2)).drop skip)).length_le
  simp only [List.length_drop] at h2 h3 h4
  split at h
  · cases h
  · rw [Option.some.injEq, Prod.mk.injEq] at h
    omega

/-- **A number ends at a colon.** -/
theorem scanHx_stop (a b : Bytes) : scanHx (a ++ 58 :: b) = scanHx a := by
  have h1 := (List.takeWhile_sublist isspace (l := a)).length_le
  have h2 := signAt_le (a.drop (a.takeWhile isspace).length)
  rw [List.length_drop] at h2
  have h3 := skip0x_le (a.drop ((a.takeWhile isspace).length +
    (StringCast.signAt (a.drop (a.takeWhile isspace).length)).2))
  unfold scanHx
  dsimp only
  rw [takeWhile_stop (by decide), List.drop_append_of_le_length h1, signAt_stop,
    List.drop_append_of_le_length (by omega), skip0x_stop, List.drop_append_of_le_length h3,
    takeWhile_stop (by decide)]

theorem scanHx_colon (t : Bytes) : scanHx (58 :: t) = none := scanHx_stop [] t

theorem not_huge_colon : ¬ Huge (58 :: t) := by
  rintro ⟨w, n, h, -⟩
  rw [scanHx_colon] at h
  cases h

theorem scanHx_take (h : scanHx s = some (w, n)) : 58 ∉ s.take n := by
  intro hmem
  obtain ⟨a, b, rfl, ha⟩ := List.eq_append_cons_of_mem (List.mem_of_mem_take hmem)
  rw [scanHx_stop] at h
  rw [List.take_append_of_le_length (scanHx_le h)] at hmem
  exact ha (List.mem_of_mem_take hmem)

theorem Number.free (h : Number t) : 58 ∉ t := by
  obtain ⟨-, w, hw⟩ := h
  have hfree := scanHx_take hw
  rwa [List.take_length] at hfree

theorem Number.ne_nil (h : Number t) : t ≠ [] := by
  obtain ⟨-, w, hw⟩ := h
  exact List.length_pos_iff.mp (scanHx_pos hw)

theorem number_take (h : scanHx s = some (w, n)) (hn : n < 2 ^ 31) (hr : s.drop n = 58 :: r) :
    s = s.take n ++ 58 :: r ∧ Number (s.take n) := by
  have hs : s = s.take n ++ 58 :: r := by
    rw [← hr, List.take_append_drop]
  have hlen : (s.take n).length = n := by
    rw [List.length_take]
    exact Nat.min_eq_left (scanHx_le h)
  have hscan : scanHx (s.take n) = some (w, n) := by
    rw [← h]
    conv_rhs => rw [hs]
    exact (scanHx_stop _ _).symm
  refine ⟨hs, by rwa [hlen], w, ?_⟩
  rw [hlen]
  exact hscan

end

/-! ## the texts -/

section
variable {s t r post : Bytes} {w n room : Nat} {Q : Bytes → Prop}

theorem behind_run : Behind Q room (58 :: post) ↔ Q post := by
  constructor
  · rintro ⟨tokens, rest, -, hnum, htext, hlast⟩
    cases tokens with
    | nil =>
      cases List.cons.inj htext |>.2
      rcases hlast with hhuge | ⟨post, hpost, hq⟩
      · exact absurd hhuge not_huge_colon
      · cases hpost
        exact hq
    | cons t tokens =>
      have ht := hnum t List.mem_cons_self
      obtain ⟨c, t', hc⟩ := List.exists_cons_of_ne_nil ht.ne_nil
      rw [hc, List.flatMap_cons] at htext
      have hcolon : c = 58 := ((List.cons.inj (List.cons.inj htext).2).1).symm
      exact absurd (hc ▸ hcolon ▸ List.mem_cons_self) ht.free
  · intro h
    exact ⟨[], 58 :: post, Nat.zero_le _, List.forall_mem_nil _, rfl, Or.inr ⟨post, rfl, h⟩⟩

theorem tail_colon (tokens : List Bytes) (rest : Bytes) :
    ∃ r, tokens.flatMap (58 :: ·) ++ 58 :: rest = 58 :: r := by
  cases tokens with
  | nil => exact ⟨rest, rfl⟩
  | cons t tokens => exact ⟨_, rfl⟩

theorem behind_number (hs : s.head? ≠ some 58) : Behind Q room s ↔ Huge s ∨
    ∃ w n r left, scanHx s = some (w, n) ∧ n < 2 ^ 31 ∧ s.drop n = 58 :: r ∧ room = left + 1 ∧
      Behind Q left r := by
  constructor
  · rintro ⟨tokens, rest, hlen, hnum, htext, hlast⟩
    cases tokens with
    | nil =>
      cases List.cons.inj htext |>.2
      rcases hlast with hhuge | ⟨post, hpost, -⟩
      · exact Or.inl hhuge
      · rw [hpost] at hs
        exact absurd rfl hs
    | cons t tokens =>
      obtain ⟨hshort, w, hw⟩ := hnum t List.mem_cons_self
      obtain ⟨r, hr⟩ := tail_colon tokens rest
      have htail : s = t ++ 58 :: r := by
        rw [List.flatMap_cons, List.append_assoc, hr] at htext
        exact (List.cons.inj htext).2
      rw [List.length_cons] at hlen
      refine Or.inr ⟨w, t.length, r, room - 1, ?_, hshort, ?_, by omega, tokens, rest, by omega,
        fun u hu => hnum u (List.mem_cons_of_mem t hu), hr.symm, hlast⟩
      · rw [htail, scanHx_stop]
        exact hw
      · rw [htail, List.drop_left]
  · rintro (hhuge | ⟨w, n, r, left, hscan, hshort, hr, rfl, tokens, rest, hlen, hnum, htext, hlast⟩)
    · exact ⟨[], s, Nat.zero_le _, List.forall_mem_nil _, rfl, Or.inl hhuge⟩
    · obtain ⟨hs, htoken⟩ := number_take hscan hshort hr
      refine ⟨s.take n :: tokens, rest, Nat.succ_le_succ hlen, ?_, ?_, hlast⟩
      · exact List.forall_mem_cons.mpr ⟨htoken, hnum⟩
      · rw [List.flatMap_cons, List.append_assoc, ← htext]
        exact congrArg _ hs

end

/-! ## the loop -/

section
variable {s t r post an_addr : Bytes} {v : Local} {w n k room : Nat}

theorem not_mem_drop (h : 0 ∉ s) (n : Nat) : 0 ∉ s.drop n := fun hm => h (List.mem_of_mem_drop hm)

theorem cstr_nul (h : 0 ∉ s) : cstr (s ++ [0]) = s := by
  rw [cstr_append (notNul_of_not_mem h)]
  exact List.append_nil s

theorem loop_nul (v : Local) : pton6Loop [0] v ≠ none := by
  rw [loop_done [] (Or.inl rfl)]
  split
  · exact Option.some_ne_none _
  · exact Option.some_ne_none _

theorem loop_none (h0 : 0 ∉ s) (hs : s.head? ≠ some 58) (hv : v.addr_cursor < 8)
    (hscan : scanHx s = none) : pton6Loop (s ++ [0]) v = some none := by
  cases s with
  | nil =>
    rw [List.nil_append, loop_done [] (Or.inl rfl), if_pos (Or.inr hv)]
  | cons c s =>
    have hc : c ≠ 58 := fun h => hs (congrArg some h)
    have hnul : c ≠ 0 := fun h => h0 (h ▸ List.mem_cons_self)
    rw [List.cons_append, loop_other (by simp [hnul, hv]) hc, ← List.cons_append, cstr_nul h0, hscan]

theorem loop_number (h0 : 0 ∉ s) (hv : v.addr_cursor < 8) (hscan : scanHx s = some (w, n)) :
    pton6Loop (s ++ [0]) v =
      if 2 ^ 31 ≤ n then none
      else (storeWord v.an_addr v.addr_cursor w).bind fun an_addr =>
        let v' := { v with an_addr := an_addr, addr_cursor := v.addr_cursor + 1 }
        match s.drop n with
        | [] => pton6Loop [0] v'
        | d :: r => if d ≠ 58 then some none else pton6Loop (d :: r ++ [0]) v' := by
  have hle := scanHx_le hscan
  cases s with
  | nil => cases hscan
  | cons c s =>
    have hc : c ≠ 58 := by
      rintro rfl
      rw [scanHx_colon] at hscan
      cases hscan
    have hnul : c ≠ 0 := fun h => h0 (h ▸ List.mem_cons_self)
    rw [List.cons_append, loop_other (by simp [hnul, hv]) hc, ← List.cons_append, cstr_nul h0, hscan]
    dsimp only
    rw [List.drop_append_of_le_length hle]
    congr 2
    funext an_addr
    cases hdrop : (c :: s).drop n with
    | nil => rfl
    | cons d r =>
      have hd : d ≠ 0 := by
        rintro rfl
        exact not_mem_drop h0 n (hdrop ▸ List.mem_cons_self)
      rw [List.cons_append, List.head?_cons]
      dsimp only
      exact if_congr (and_iff_left hd) rfl rfl

theorem loop_colon_append (hs : s.head? ≠ some 58) (hv : v.addr_cursor < 8) :
    pton6Loop (58 :: s ++ [0]) v = pton6Loop (s ++ [0]) v := by
  cases s with
  | nil => exact loop_colon (by decide) hv
  | cons c s => exact loop_colon (fun h => hs (congrArg some h)) hv

theorem loop_skipColon (s : Bytes) (hv : v.addr_cursor < 8) :
    pton6Loop (58 :: skipColon s ++ [0]) v = pton6Loop (s ++ [0]) v := by
  unfold skipColon
  split
  · rfl
  · rename_i hs
    refine loop_colon_append (fun h => ?_) hv
    obtain ⟨t, ht⟩ := List.head?_eq_some_iff.mp h
    exact hs t ht

theorem loop_stored {seencompressed : Bool} (h0 : 0 ∉ s) (hk : k < 8)
    (hscan : scanHx s = some (w, n)) (hn : n < 2 ^ 31) :
    pton6Loop (s ++ [0]) ⟨an_addr, k, seencompressed⟩ = none ↔
      ∃ r, s.drop n = 58 :: r ∧ pton6Loop (58 :: r ++ [0])
        ⟨memcpy an_addr (2 * k) (Inet6.wordBytes w), (k + 1 : Nat), seencompressed⟩ = none := by
  have hcur : (k : Int) < 8 := by omega
  have hstore : storeWord an_addr k w = some (memcpy an_addr (2 * k) (Inet6.wordBytes w)) :=
    if_pos ⟨by omega, hcur⟩
  rw [loop_number h0 hcur hscan, if_neg (by omega), hstore, Option.bind_some]
  dsimp only
  cases s.drop n with
  | nil =>
    refine iff_of_false (loop_nul _) ?_
    rintro ⟨r, hr, -⟩
    cases hr
  | cons d r =>
    by_cases hd : d = 58
    · subst hd
      dsimp only
      rw [if_neg (not_not.mpr rfl), ← Nat.cast_add_one]
      constructor
      · intro h
        exact ⟨r, rfl, h⟩
      · rintro ⟨r', hr, h⟩
        cases hr
        exact h
    · dsimp only
      rw [if_pos hd]
      refine iff_of_false (Option.some_ne_none _) ?_
      rintro ⟨r', hr, -⟩
      cases hr
      exact hd rfl

/-- the loop in front of the next word, number after number; `Q` says where a `::` leads out -/
theorem loop_none_iff {seencompressed : Bool} {Q : Bytes → Prop}
    (hQ : ∀ (an_addr post : Bytes) (k : Nat), k < 8 → 0 ∉ post →
      (pton6Loop (58 :: 58 :: post ++ [0]) ⟨an_addr, k, seencompressed⟩ = none ↔ Q post))
    (h0 : 0 ∉ s) (hk : k + room = 7) :
    pton6Loop (58 :: s ++ [0]) ⟨an_addr, k, seencompressed⟩ = none ↔ Behind Q room s := by
  induction hlen : s.length using Nat.strong_induction_on generalizing s an_addr k room with
  | _ m ih =>
    have hcur : (k : Int) < 8 := by omega
    by_cases hs : s.head? = some 58
    · obtain ⟨post, rfl⟩ := List.head?_eq_some_iff.mp hs
      rw [behind_run]
      exact hQ an_addr post k (by omega) fun hm => h0 (List.mem_cons_of_mem _ hm)
    rw [loop_colon_append hs hcur, behind_number hs]
    cases hscan : scanHx s with
    | none =>
      rw [loop_none h0 hs hcur hscan]
      refine iff_of_false (Option.some_ne_none _) ?_
      rintro (⟨w, n, h, -⟩ | ⟨w, n, r, left, h, -⟩)
      · rw [hscan] at h
        cases h
      · cases h
    | some word =>
      obtain ⟨w, n⟩ := word
      by_cases hhuge : 2 ^ 31 ≤ n
      · rw [loop_number h0 hcur hscan, if_pos hhuge]
        exact iff_of_true rfl (Or.inl ⟨w, n, hscan, hhuge⟩)
      have hnot : ¬ Huge s := by
        rintro ⟨w', n', h, hn'⟩
        rw [hscan] at h
        cases h
        exact hhuge hn'
      -- the rest is shorter, since a number has a character at least
      have hrest : ∀ r, s.drop n = 58 :: r → r.length < m ∧ 0 ∉ r := by
        intro r hr
        have hless := congrArg List.length hr
        rw [List.length_drop, List.length_cons] at hless
        exact ⟨by omega, fun hm => not_mem_drop h0 n (hr ▸ List.mem_cons_of_mem _ hm)⟩
      rw [loop_stored h0 (by omega) hscan (by omega), or_iff_right hnot]
      constructor
      · rintro ⟨r, hr, hnone⟩
        cases room with
        | zero =>
          have hfull : ¬ (((k + 1 : Nat) : Int) < 8) := by omega
          rw [List.cons_append, loop_stop (by decide) hfull] at hnone
          cases hnone
        | succ left =>
          obtain ⟨hless, hr0⟩ := hrest r hr
          have hbehind : Behind Q left r := (ih r.length hless hr0 (by omega) rfl).mp hnone
          exact ⟨w, n, r, left, rfl, by omega, hr, rfl, hbehind⟩
      · rintro ⟨w', n', r, left, h, -, hr, rfl, hbehind⟩
        cases h
        obtain ⟨hless, hr0⟩ := hrest r hr
        exact ⟨r, hr, (ih r.length hless hr0 (by omega) rfl).mpr hbehind⟩

theorem loop_twice (post : Bytes) (hv : v.addr_cursor < 8) (hseen : v.seencompressed = true) :
    pton6Loop (58 :: 58 :: post ++ [0]) v = some none := by
  rw [List.cons_append, List.cons_append, loop_pair _ hv, hseen, if_pos rfl]

theorem not_mem_skipColon (h : 0 ∉ s) : 0 ∉ skipColon s := by
  unfold skipColon
  split
  · exact fun hm => h (List.mem_cons_of_mem _ hm)
  · exact h

/-- a cursor in front of the array: the next number is stored there -/
theorem loop_front (h0 : 0 ∉ s) (hv : v.addr_cursor < 0) (hseen : v.seencompressed = true) :
    pton6Loop (s ++ [0]) v = none ↔ (scanHx (skipColon s)).isSome := by
  have hcur : v.addr_cursor < 8 := by omega
  rw [← loop_skipColon _ hcur]
  have hs0 := not_mem_skipColon h0
  generalize skipColon s = s at hs0
  by_cases hs : s.head? = some 58
  · obtain ⟨post, rfl⟩ := List.head?_eq_some_iff.mp hs
    rw [loop_twice post hcur hseen, scanHx_colon]
    exact iff_of_false (Option.some_ne_none _) Bool.false_ne_true
  rw [loop_colon_append hs hcur]
  cases hscan : scanHx s with
  | none =>
    rw [loop_none hs0 hs hcur hscan]
    exact iff_of_false (Option.some_ne_none _) Bool.false_ne_true
  | some word =>
    obtain ⟨w, n⟩ := word
    refine iff_of_true ?_ rfl
    rw [loop_number hs0 hcur hscan]
    split
    · rfl
    · unfold storeWord
      rw [if_neg (by omega)]
      rfl

theorem loop_first {post : Bytes} (hk : k < 8) (h0 : 0 ∉ post) :
    pton6Loop (58 :: 58 :: post ++ [0]) ⟨an_addr, k, false⟩ = none ↔ Beyond post := by
  have hcur : (k : Int) < 8 := by omega
  have hrun := loop_run (v := ⟨an_addr, k, false⟩) (t := post ++ [0]) (by simp) hcur rfl
  rw [cstr_nul h0] at hrun
  rw [List.cons_append, List.cons_append, hrun]
  unfold Beyond
  by_cases hint : 2 ^ 31 ≤ post.count 58 + 1
  · rw [if_pos hint]
    exact iff_of_true rfl (Or.inl hint)
  rw [if_neg hint, or_iff_right hint]
  unfold skipRun
  rw [cstr_nul h0]
  by_cases hnil : post = []
  · subst hnil
    rw [if_pos rfl]
    refine iff_of_false (loop_nul _) ?_
    rintro (⟨h, -⟩ | h)
    · cases h
    · obtain ⟨w, n, h, -⟩ | ⟨w, n, r, left, h, -⟩ :=
        (behind_number (by simp [skipColon])).mp h
      · cases h
      · cases h
  rw [if_neg hnil]
  dsimp only
  by_cases hcolons : 8 ≤ post.count 58
  · rw [loop_front h0 (by dsimp only; omega) rfl, and_iff_right hcolons]
    refine (or_iff_left_of_imp fun h => ?_).symm
    by_cases hs : (skipColon post).head? = some 58
    · obtain ⟨t, ht⟩ := List.head?_eq_some_iff.mp hs
      rw [ht, behind_run] at h
      exact h.elim
    · obtain ⟨w, n, h, -⟩ | ⟨w, n, r, left, h, -⟩ := (behind_number hs).mp h
      · rw [h]
        rfl
      · rw [h]
        rfl
  · have hplace : (8 : Int) - ((post.count 58 : Nat) + 1) = (7 - post.count 58 : Nat) := by omega
    rw [hplace, or_iff_right fun h => hcolons h.1,
      ← loop_skipColon _ (by dsimp only; omega)]
    refine loop_none_iff (fun an_addr post k hk _ => ?_) (not_mem_skipColon h0) (by omega)
    rw [loop_twice post (by dsimp only; omega) rfl]
    exact iff_of_false (Option.some_ne_none _) id

/-- **The loop leads out of its arrays** for the texts of `Behind Beyond`. -/
theorem loop_out (h0 : 0 ∉ s) :
    pton6Loop (s ++ [0]) .new = none ↔ Behind Beyond 7 (skipColon s) := by
  rw [← loop_skipColon _ (by decide)]
  exact loop_none_iff (fun _ _ _ hk hpost => loop_first hk hpost) (not_mem_skipColon h0) rfl

end

/-! ## an address with a dot -/

section
variable {src before addrstart a : Bytes} {tp : UInt8} {octets : Nat} {saw_digit : Bool}

/-- `tp` stays in `tmp`: the bytes in front of it are the octets but the one that is read -/
theorem pton4Loop_some (ho : octets ≤ 4) (hb : before.length + saw_digit.toNat = octets)
    (hsaw : saw_digit = false → octets < 4) :
    ∃ r, pton4Loop src before tp octets saw_digit = some r ∧ ∀ a ∈ r, a.length = 4 := by
  have hnone : ∀ a ∈ (none : Option Bytes), a.length = 4 := fun a ha =>
    absurd ha (Option.not_mem_none a)
  induction src generalizing before tp octets saw_digit with
  | nil =>
    unfold pton4Loop
    by_cases hless : octets < 4
    · rw [if_pos hless]
      exact ⟨none, rfl, hnone⟩
    · have hlast : saw_digit = true := Bool.eq_true_of_not_eq_false fun h => hless (hsaw h)
      rw [hlast, Bool.toNat_true] at hb
      rw [if_neg hless, if_pos (by omega)]
      refine ⟨_, rfl, fun a ha => ?_⟩
      cases ha
      rw [List.length_append, List.length_singleton]
      omega
  | cons ch src ih =>
    unfold pton4Loop
    split
    · dsimp only
      split
      · exact ⟨none, rfl, hnone⟩
      cases saw_digit with
      | true => exact ih ho hb hsaw
      | false =>
        have hless := hsaw rfl
        rw [if_neg Bool.false_ne_true, if_neg (by omega)]
        exact ih hless (congrArg (· + 1) hb) fun h => Bool.noConfusion h
    split
    · rename_i hdot
      rw [hdot.2, Bool.toNat_true] at hb
      split
      · exact ⟨none, rfl, hnone⟩
      · rw [if_pos (by omega)]
        refine ih ho ?_ fun _ => by omega
        rw [List.length_append, List.length_singleton]
        exact hb
    · exact ⟨none, rfl, hnone⟩

theorem pton4_some (src : Bytes) : ∃ r, pton4 src = some r ∧ ∀ a ∈ r, a.length = 4 :=
  pton4Loop_some (Nat.zero_le 4) rfl fun _ => by decide

theorem dropWhile_colon : addrstart.dropWhile (· ≠ 58) = [] ↔ 58 ∉ addrstart := by
  rw [List.dropWhile_eq_nil_iff]
  simp only [ne_eq, decide_not, Bool.not_eq_true', decide_eq_false_iff_not]
  exact ⟨fun h hm => h 58 hm rfl, fun h c hc he => h (he ▸ hc)⟩

theorem huge_iff : (scanHx addrstart).any (2 ^ 31 ≤ ·.2) = true ↔ Huge addrstart := by
  unfold Huge
  cases scanHx addrstart with
  | none => simp
  | some word =>
    obtain ⟨w, n⟩ := word
    simp

theorem dotted_none_iff : pton6Dotted addrstart = none ↔ 58 ∈ addrstart ∧ Huge addrstart := by
  unfold pton6Dotted
  split
  · rename_i hnil
    obtain ⟨r, hr, -⟩ := pton4_some addrstart
    rw [hr]
    exact iff_of_false (Option.some_ne_none _) fun h => dropWhile_colon.mp hnil h.1
  · rename_i colon hcons
    have hmem : 58 ∈ addrstart := by
      by_contra h
      rw [dropWhile_colon.mpr h] at hcons
      cases hcons
    rw [and_iff_right hmem, ← huge_iff]
    split
    · rename_i hany
      exact iff_of_true rfl hany
    · rename_i hany
      refine iff_of_false ?_ hany
      split
      · obtain ⟨r, hr, -⟩ := pton4_some colon
        rw [hr]
        exact Option.some_ne_none _
      · exact Option.some_ne_none _

theorem dotted_length (h : pton6Dotted addrstart = some (some a)) : a.length = 16 := by
  have hcopy : ∀ src buf : Bytes, buf.length = 16 →
      (pton4 src).map (fun v4 => v4.map fun v4 => memcpy buf 12 v4) = some (some a) →
        a.length = 16 := by
    intro src buf hbuf hcopy
    obtain ⟨r, hr, hlen⟩ := pton4_some src
    rw [hr, Option.map_some, Option.some.injEq, Option.map_eq_some_iff] at hcopy
    obtain ⟨v4, rfl, rfl⟩ := hcopy
    rw [Nat64.length_memcpy, hbuf]
    rw [hbuf, hlen v4 rfl]
  unfold pton6Dotted at h
  split at h
  · exact hcopy _ _ List.length_replicate h
  split at h
  · cases h
  split at h
  · exact hcopy _ _ rfl h
  · cases h

end

/-! ## the function -/

section
variable {src a readcursor : Bytes} {v : Local}

theorem storeWord_length {buf buf' : Bytes} {addr_cursor : Int} {w : Nat} (hbuf : buf.length = 16)
    (h : storeWord buf addr_cursor w = some buf') : buf'.length = 16 := by
  unfold storeWord at h
  split at h
  · rename_i hrange
    cases h
    rw [Nat64.length_memcpy, hbuf]
    rw [hbuf]
    show 2 * addr_cursor.toNat + 2 ≤ 16
    omega
  · cases h

theorem skipRun_addr (v : Local) (readcursor : Bytes) :
    (skipRun v readcursor).an_addr = v.an_addr := by
  unfold skipRun
  split <;> rfl

theorem loop_length (hv : v.an_addr.length = 16) (h : pton6Loop readcursor v = some (some a)) :
    a.length = 16 := by
  induction readcursor, v using pton6Loop.induct with
  | case1 v =>
    rw [pton6Loop.eq_def] at h
    cases h
  | case2 v c t hend hfail =>
    rw [loop_done t hend, if_pos hfail] at h
    cases h
  | case3 v c t hend hfull =>
    rw [loop_done t hend, if_neg hfull] at h
    cases h
    exact hv
  | case4 v hgo =>
    rw [pton6Loop.eq_def] at h
    dsimp only at h
    rw [if_neg hgo, if_pos rfl] at h
    cases h
  | case5 v u hseen hgo =>
    rw [loop_pair u (by simpa using hgo), if_pos hseen] at h
    cases h
  | case6 v u hseen hint hgo =>
    rw [loop_pair u (by simpa using hgo), if_neg hseen, if_pos hint] at h
    cases h
  | case7 v u hseen hint hgo ih =>
    rw [loop_pair u (by simpa using hgo), if_neg hseen, if_neg hint] at h
    exact ih (skipRun_addr v u ▸ hv) h
  | case8 v c' u hc' hgo ih =>
    rw [loop_colon hc' (by simpa using hgo)] at h
    exact ih hv h
  | case9 v c t hgo hc hscan =>
    rw [loop_other hgo hc, hscan] at h
    cases h
  | case10 v c t hgo hc word bytesread hscan hint =>
    rw [loop_other hgo hc, hscan] at h
    dsimp only at h
    rw [if_pos hint] at h
    cases h
  | case11 v c t hgo hc word bytesread hscan hint ih =>
    rw [loop_other hgo hc, hscan] at h
    dsimp only at h
    rw [if_neg hint] at h
    obtain ⟨an_addr, hstore, h⟩ := Option.bind_eq_some_iff.mp h
    split at h
    · cases h
    split at h
    · cases h
    · exact ih an_addr (storeWord_length hv hstore) h

theorem pton6_length (h : pton6 src = some (some a)) : a.length = 16 := by
  unfold pton6 at h
  split at h
  · cases h
  split at h
  · split at h
    · exact dotted_length h
    · exact loop_length List.length_replicate h
  · exact loop_length List.length_replicate h

theorem pton6_none_iff (h0 : 0 ∉ src) : pton6 src = none ↔ Overrun src := by
  unfold pton6 Overrun
  by_cases hx : 120 ∈ src
  · rw [if_pos hx]
    exact iff_of_false (Option.some_ne_none _) fun h => h.1 hx
  rw [if_neg hx, and_iff_right hx]
  split
  · rename_i addrstart
    split
    · rename_i hdot
      rw [dotted_none_iff]
      constructor
      · intro h
        exact Or.inl ⟨addrstart, ⟨rfl, hdot.2⟩, h⟩
      · rintro (⟨t, ⟨ht, -⟩, h⟩ | ⟨h, -⟩)
        · cases ht
          exact h
        · exact absurd ⟨rfl, hdot.2⟩ (h addrstart)
    · rename_i hdot
      have hplain : ∀ t, ¬ Dotted (58 :: 58 :: addrstart) t := by
        rintro t ⟨ht, hmem⟩
        cases ht
        exact hdot ⟨List.ne_nil_of_mem hmem, hmem⟩
      rw [loop_out h0, or_iff_right fun ⟨t, ht, _⟩ => hplain t ht, and_iff_right hplain]
  · rename_i hsrc
    have hplain : ∀ t, ¬ Dotted src t := fun t ht => hsrc t ht.1
    rw [loop_out h0, or_iff_right fun ⟨t, ht, _⟩ => hplain t ht, and_iff_right hplain]

end

/-- **`socket_inet_pton6` is safe** for every string but those of `Overrun`. -/
theorem pton6_safe (src : Bytes) (h0 : 0 ∉ src) : Safe src ↔ ¬ Overrun src := by
  rw [← pton6_none_iff h0]
  unfold Safe inetPton6
  constructor
  · intro h hnone
    obtain ⟨ret, dst', hout, -⟩ := h (List.replicate 16 0) (by decide)
    rw [hnone] at hout
    cases hout
  · intro h dst hdst
    obtain ⟨r, hr⟩ := Option.ne_none_iff_exists'.mp h
    rw [hr]
    cases r with
    | none => exact ⟨false, dst, rfl, rfl, rfl, fun _ => rfl⟩
    | some a =>
      have hlen := pton6_length hr
      refine ⟨true, memcpy dst 0 a, rfl, Nat64.length_memcpy (by omega), ?_,
        fun h => Bool.noConfusion h⟩
      unfold memcpy
      rw [List.take_zero, List.nil_append, Nat.zero_add, ← hlen, List.drop_left]

/-- `::1` -/
theorem pton6_safe_loopback : Safe (ascii "::1") := by
  refine (pton6_safe (ascii "::1") (by decide)).mpr fun hover => ?_
  have hread := pton6_compress (l := []) (r := [1]) (by simp) (by simp) (by simp) (by decide)
  have htext : Inet6.compress (Inet6.hex []) (Inet6.hex [1]) = ascii "::1" := by decide
  rw [htext, (pton6_none_iff (by decide)).mpr hover] at hread
  cases hread

/-- eight colons behind `::` -/
theorem not_pton6_safe : ¬ ∀ src : Bytes, 0 ∉ src → Safe src := by
  intro h
  have hover : Overrun (ascii "::1:2:3:4:5:6:7:8:9") := by
    refine ⟨by decide, Or.inr ⟨?_, ?_⟩⟩
    · rintro t ⟨ht, hdot⟩
      have hmem : (46 : UInt8) ∈ ascii "::1:2:3:4:5:6:7:8:9" := by
        rw [ht]
        exact List.mem_cons_of_mem _ (List.mem_cons_of_mem _ hdot)
      exact absurd hmem (by decide)
    · exact behind_run.mpr (Or.inr (Or.inl ⟨by decide, by decide⟩))
  obtain ⟨ret, dst', hout, -⟩ := h (ascii "::1:2:3:4:5:6:7:8:9") (by decide)
    (List.replicate 16 0) (by decide)
  unfold inetPton6 at hout
  rw [(pton6_none_iff (by decide)).mpr hover] at hout
  cases hout

end InetText
