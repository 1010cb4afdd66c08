import LearnDiary.Lib.Pieces

/-!
# Tokens (comm/strutil.h, comm/strutil.cc)

A string is a list of characters of any type, `none` is `npos`.

* `nextToken_cases`    one call of `NextToken`;
* `splitLoop_eq`       the loop appends the pieces from `offset_` on;
* `tokens_roundtrip`   what `SplitToken` gives, for `MergeToken` and for any string.
-/

set_option linter.unusedSectionVars false

namespace Strutil
open Pieces

variable {α : Type*} [DecidableEq α]

/-! ## the code -/

/-- `find_first_not_of` -/
def findFirstNotOf (s delimiters : List α) (pos : Nat) : Option Nat :=
  ((s.drop pos).findIdx? (· ∉ delimiters)).map (pos + ·)

/-- `find_first_of` -/
def findFirstOf (s delimiters : List α) (pos : Nat) : Option Nat :=
  ((s.drop pos).findIdx? (· ∈ delimiters)).map (pos + ·)

def substr (s : List α) (pos n : Nat) : List α := (s.drop pos).take n

structure Tokenizer (α : Type*) where
  offset_ : Nat
  string_ : List α
  token_ : List α
  delimiters_ : List α

namespace Tokenizer

def new (str delimiters : List α) : Tokenizer α := ⟨0, str, [], delimiters⟩

/-- `NextToken(delimiters)` -/
def nextTokenOf (t : Tokenizer α) (delimiters : List α) : Bool × Tokenizer α :=
  match findFirstNotOf t.string_ delimiters t.offset_ with
  | none => (false, { t with offset_ := t.string_.length })
  | some i =>
    match findFirstOf t.string_ delimiters i with
    | none =>
      (true, { t with
        token_ := substr t.string_ i (t.string_.length - i)
        offset_ := t.string_.length })
    | some j => (true, { t with token_ := substr t.string_ i (j - i), offset_ := j })

def nextToken (t : Tokenizer α) : Bool × Tokenizer α := t.nextTokenOf t.delimiters_

def isDelimiter (t : Tokenizer α) (c : α) : Bool := decide (c ∈ t.delimiters_)

/-- **One call.**  Either only delimiters are left, or the token is what stands behind them up to the
next one, and the offset moves to its end. -/
theorem nextToken_cases (t : Tokenizer α) :
    (t.nextToken = (false, { t with offset_ := t.string_.length }) ∧
      ∀ c ∈ t.string_.drop t.offset_, t.isDelimiter c = true) ∨
    ∃ gap token rest, t.string_.drop t.offset_ = gap ++ (token ++ rest) ∧
      (∀ c ∈ gap, t.isDelimiter c = true) ∧ token ≠ [] ∧
      (∀ c ∈ token, t.isDelimiter c = false) ∧ (∀ c ∈ rest.head?, t.isDelimiter c = true) ∧
      t.nextToken = (true, { t with
        token_ := token, offset_ := t.offset_ + gap.length + token.length }) := by
  have hnot : (fun c => decide (c ∉ t.delimiters_)) = fun c => !t.isDelimiter c := by
    funext c
    unfold isDelimiter
    rw [decide_not]
  have hin : (fun c => decide (c ∈ t.delimiters_)) = t.isDelimiter := rfl
  unfold nextToken nextTokenOf findFirstNotOf findFirstOf
  rw [hnot, hin]
  cases hi : (t.string_.drop t.offset_).findIdx? (fun c => !t.isDelimiter c) with
  | none =>
    left
    refine ⟨rfl, fun c hc => ?_⟩
    simpa using List.findIdx?_eq_none_iff.mp hi c hc
  | some k =>
    right
    obtain ⟨hgap, c, u, hc, hcd⟩ := findIdx?_split hi
    have hrest : t.string_.drop (t.offset_ + k) = c :: u := by rw [← List.drop_drop, hc]
    have hk : ((t.string_.drop t.offset_).take k).length = k := by
      have := congrArg List.length hc
      rw [List.length_take]
      rw [List.length_drop, List.length_cons] at this
      omega
    have hgap' : ∀ c ∈ (t.string_.drop t.offset_).take k, t.isDelimiter c = true :=
      fun c hc => by simpa using hgap c hc
    have hlen := congrArg List.length hrest
    rw [List.length_drop, List.length_cons] at hlen
    simp only [Option.map_some, hrest]
    cases hj : (c :: u).findIdx? t.isDelimiter with
    | none =>
      refine ⟨(t.string_.drop t.offset_).take k, c :: u, [], ?_, hgap', by nofun,
        List.findIdx?_eq_none_iff.mp hj, by nofun, ?_⟩
      · rw [List.append_nil, ← hc, List.take_append_drop]
      · have htake : (c :: u).take (t.string_.length - (t.offset_ + k)) = c :: u :=
          List.take_of_length_le (by rw [List.length_cons]; omega)
        simp only [Option.map_none, substr, hrest, htake, hk, List.length_cons, Prod.mk.injEq,
          mk.injEq, true_and, and_true]
        omega
    | some n =>
      obtain ⟨htoken, d, v, hd, hdd⟩ := findIdx?_split hj
      have hn : ((c :: u).take n).length = n := by
        have := congrArg List.length hd
        rw [List.length_take]
        rw [List.length_drop, List.length_cons, List.length_cons] at this
        rw [List.length_cons]
        omega
      refine ⟨(t.string_.drop t.offset_).take k, (c :: u).take n, d :: v, ?_, hgap', ?_, htoken,
        ?_, ?_⟩
      · rw [← hd, List.take_append_drop, ← hc, List.take_append_drop]
      · -- the first character is no delimiter, so the token is not empty
        rintro hnil
        rw [hnil, List.length_nil] at hn
        subst hn
        cases hd
        rw [hdd] at hcd
        cases hcd
      · rintro x hx
        cases hx
        exact hdd
      · simp only [Option.map_some, substr, hrest, Nat.add_sub_cancel_left, hk, hn]

theorem nextToken_progress {t : Tokenizer α} (h : t.nextToken.1 = true) :
    t.string_.length - t.nextToken.2.offset_ < t.string_.length - t.offset_ := by
  rcases t.nextToken_cases with ⟨he, -⟩ | ⟨gap, token, rest, hs, -, hne, -, -, he⟩
  · rw [he] at h
    cases h
  · have hlen := congrArg List.length hs
    have hpos := List.length_pos_iff.mpr hne
    rw [List.length_drop, List.length_append, List.length_append] at hlen
    rw [he]
    show t.string_.length - (t.offset_ + gap.length + token.length) < _
    omega

theorem nextToken_string (t : Tokenizer α) : t.nextToken.2.string_ = t.string_ := by
  rcases t.nextToken_cases with ⟨he, -⟩ | ⟨gap, token, rest, -, -, -, -, -, he⟩ <;> rw [he]

end Tokenizer

/-- the loop of `SplitToken` -/
def splitLoop (tokenizer : Tokenizer α) (ss : List (List α)) : List (List α) :=
  if tokenizer.nextToken.1 = true then
    splitLoop tokenizer.nextToken.2 (ss ++ [tokenizer.nextToken.2.token_])
  else ss
termination_by tokenizer.string_.length - tokenizer.offset_
decreasing_by
  rw [tokenizer.nextToken_string]
  exact Tokenizer.nextToken_progress ‹_›

/-- `SplitToken(str, delimiters, ss)` -/
def splitToken (str delimiters : List α) (ss : List (List α)) : List (List α) :=
  splitLoop (Tokenizer.new str delimiters) ss

/-- the loop of `MergeToken` -/
def mergeLoop (delimiter : List α) : List (List α) → List α → List α
  | [], result => result
  | [token], result => result ++ token
  | token :: next :: rest, result =>
    mergeLoop delimiter (next :: rest) (result ++ token ++ delimiter)

/-- `MergeToken`: what it returns and the `result` it leaves -/
def mergeToken (tokens : List (List α)) (delimiter result : List α) : Bool × List α :=
  if tokens = [] then (false, result)
  else if delimiter = [] then (false, result)
  else (true, mergeLoop delimiter tokens [])

/-! ## the loops -/

/-- **The loop of `SplitToken`.** -/
theorem splitLoop_eq (t : Tokenizer α) (ss : List (List α)) :
    splitLoop t ss = ss ++ pieces t.isDelimiter (t.string_.drop t.offset_) := by
  induction t, ss using splitLoop.induct with
  | case1 t ss h ih =>
    rcases t.nextToken_cases with ⟨he, -⟩ | ⟨gap, token, rest, hs, hgap, hne, htoken, hrest, he⟩
    · rw [he] at h
      cases h
    · have hdrop : t.string_.drop (t.offset_ + gap.length + token.length) = rest := by
        rw [Nat.add_assoc, ← List.drop_drop, hs, ← List.append_assoc,
          List.drop_left' (by rw [List.length_append])]
      rw [he] at ih
      rw [splitLoop, if_pos h, he, ih]
      show _ ++ pieces t.isDelimiter (t.string_.drop (t.offset_ + gap.length + token.length)) = _
      rw [hdrop, hs, pieces_gap hgap, pieces_token hne htoken hrest, List.append_assoc]
      rfl
  | case2 t ss h =>
    rcases t.nextToken_cases with ⟨-, hall⟩ | ⟨gap, token, rest, -, -, -, -, -, he⟩
    · rw [splitLoop, if_neg h, pieces_of_gap hall, List.append_nil]
    · rw [he] at h
      exact absurd rfl h

theorem splitToken_eq (str delimiters : List α) (ss : List (List α)) :
    splitToken str delimiters ss = ss ++ pieces (· ∈ delimiters) str :=
  splitLoop_eq (Tokenizer.new str delimiters) ss

theorem mergeLoop_eq (delimiter : List α) (tokens : List (List α)) (result : List α) :
    mergeLoop delimiter tokens result = result ++ delimiter.intercalate tokens := by
  fun_induction mergeLoop delimiter tokens result with
  | case1 result => simp
  | case2 token result => simp
  | case3 result token next rest ih =>
    rw [ih]
    simp [List.intercalate]

theorem mergeToken_eq {tokens : List (List α)} {delimiter : List α} (ht : tokens ≠ [])
    (hd : delimiter ≠ []) (result : List α) :
    mergeToken tokens delimiter result = (true, delimiter.intercalate tokens) := by
  unfold mergeToken
  rw [if_neg ht, if_neg hd, mergeLoop_eq]
  rfl

/-- **Tokens.**  Tokens that are put together with a delimiter that is in none of them come back; and
for any string and any delimiters the tokens are its maximal runs of other characters, from the left
to the right. -/
theorem tokens_roundtrip :
    (∀ (tokens : List (List α)) (d : α) (result : List α), tokens ≠ [] →
      (∀ t ∈ tokens, t ≠ [] ∧ d ∉ t) →
      ∃ merged, mergeToken tokens [d] result = (true, merged) ∧
        splitToken merged [d] [] = tokens) ∧
    ∀ (str delimiters : List α) (ss : List (List α)),
      ∃ places : List (Nat × Nat),
        splitToken str delimiters ss = ss ++ places.map (part str) ∧
        places.Pairwise (fun a b => a.2 < b.1) ∧
        ∀ i j, (i, j) ∈ places ↔ Piece (· ∈ delimiters) str i j := by
  constructor
  · intro tokens d result hne htokens
    refine ⟨_, mergeToken_eq hne (List.cons_ne_nil d []) result, ?_⟩
    have hd : (fun c => decide (c ∈ [d])) = (· == d) := by
      funext c
      simp only [List.mem_singleton, beq_eq_decide]
    rw [splitToken_eq, hd, pieces_intercalate htokens]
    rfl
  · intro str delimiters ss
    obtain ⟨places, hmap, hsorted, hmem⟩ := pieces_places (· ∈ delimiters) str
    exact ⟨places, by rw [splitToken_eq, hmap], hsorted, hmem⟩

theorem tokens_roundtrip_two : ∃ merged, mergeToken [[1, 2], [3]] [0] [] = (true, merged) ∧
    splitToken merged [0] [] = [[1, 2], [3]] :=
  (tokens_roundtrip (α := Nat)).1 [[1, 2], [3]] 0 [] (by decide) (by decide)

end Strutil
