import LearnDiary.Base.Bytes
import Mathlib.Data.Nat.Digits.Lemmas

/-!
# Numbers and their text (comm/string_cast.h)

The integer types of the LP64 targets.  An operation on a signed type that overflows has no outcome,
one on an unsigned type wraps around; a read outside of `num_mapping` and a write behind
`value_cache_` have no outcome either.  `strto` is the conversion of the C standard that
`strtoimax` and `strtoumax` share.

* `swapLoop_get`     the loop with the two pointers reverses what is between them;
* `itoaLoop_eq`      the digits, as long as `35 + tmp_value` is in range;
* `strto_printInt`   the reader takes back what `%d` prints;
* `prints_back_iff`    which values come back.
-/

namespace StringCast

inductive CInt where
  | int
  | long
  | longLong
  | unsignedInt
  | unsignedLong
  | unsignedLongLong
deriving DecidableEq

namespace CInt

def signed : CInt → Bool
  | .int | .long | .longLong => true
  | .unsignedInt | .unsignedLong | .unsignedLongLong => false

/-- `2 ^ width` -/
def modulus : CInt → Nat
  | .int | .unsignedInt => 2 ^ 32
  | .long | .longLong | .unsignedLong | .unsignedLongLong => 2 ^ 64

/-- `std::numeric_limits<T>::min()` -/
def min (t : CInt) : Int := if t.signed then -(t.modulus / 2 : Nat) else 0

/-- `std::numeric_limits<T>::max()` -/
def max (t : CInt) : Int := if t.signed then (t.modulus / 2 : Nat) - 1 else t.modulus - 1

/-- the outcome of an operation whose value is `n` -/
def result (t : CInt) (n : Int) : Option Int :=
  if t.min ≤ n ∧ n ≤ t.max then some n
  else if t.signed then none
  else some (n % t.modulus)

/-- `static_cast<T>` -/
def cast (t : CInt) (n : Int) : Int :=
  if t.signed then n.bmod t.modulus else n % t.modulus

end CInt

/-! ## `string_cast_itoa` -/

def numMapping (upper_case : Bool) : Bytes :=
  if upper_case then
    ascii "ZYXWVUTSRQPONMLKJIHGFEDCBA9876543210123456789ABCDEFGHIJKLMNOPQRSTUVWXYZ"
  else ascii "zyxwvutsrqponmlkjihgfedcba9876543210123456789abcdefghijklmnopqrstuvwxyz"

/-- `num_mapping[35 + tmp_value - quotient*base]`, the sum first -/
def digitAt (t : CInt) (upper_case : Bool) (tmp_value quotient : Int) (base : Nat) :
    Option UInt8 :=
  (t.result (35 + tmp_value)).bind fun sum =>
    (t.result (quotient * base)).bind fun prod =>
      (t.result (sum - prod)).bind fun index =>
        if index < 0 then none else (numMapping upper_case)[index.toNat]?

theorem natAbs_tdiv_lt {base : Nat} (hb : 2 ≤ base) {n : Int} (h : n.tdiv base ≠ 0) :
    (n.tdiv base).natAbs < n.natAbs := by
  have hn : n ≠ 0 := by
    rintro rfl
    exact h (Int.zero_tdiv _)
  rw [Int.natAbs_tdiv, Int.natAbs_natCast]
  exact Nat.div_lt_self (Int.natAbs_pos.mpr hn) hb

/-- the `do` loop: the digits in the order in which they are written -/
def itoaLoop (t : CInt) (upper_case : Bool) {base : Nat} (hb : 2 ≤ base) (tmp_value : Int) :
    Option Bytes :=
  (digitAt t upper_case tmp_value (tmp_value.tdiv base) base).bind fun c =>
    if _h : tmp_value.tdiv base = 0 then some [c]
    else (itoaLoop t upper_case hb (tmp_value.tdiv base)).map (c :: ·)
termination_by tmp_value.natAbs
decreasing_by exact natAbs_tdiv_lt hb _h

/-- `while (ptr_left < ptr_right)`, the pointers as offsets -/
def swapLoop (result : Bytes) (ptr_left ptr_right : Nat) : Bytes :=
  if ptr_left < ptr_right then
    let tmp_char := result.getD ptr_right 0
    let result := result.set ptr_right (result.getD ptr_left 0)
    swapLoop (result.set ptr_left tmp_char) (ptr_left + 1) (ptr_right - 1)
  else result
termination_by ptr_right - ptr_left

def stringCastItoa (t : CInt) (value : Int) (base : Nat) (upper_case : Bool) : Option Bytes :=
  if h : 2 ≤ base ∧ base ≤ 36 then
    (itoaLoop t upper_case h.1 value).map fun written =>
      let result := if value < 0 then written ++ [45] else written
      swapLoop result 0 (result.length - 1)
  else some (ascii "itoa err")

/-- `string_cast(value, base).str()`: text and terminator go into `value_cache_` -/
def stringCast (t : CInt) (value : Int) (base : Nat) : Option Bytes :=
  (stringCastItoa t value base true).bind fun text =>
    if text.length + 1 ≤ 65 then some text else none

/-! ## `number_cast` -/

def signAt : Bytes → Bool × Nat
  | 45 :: _ => (true, 1)
  | 43 :: _ => (false, 1)
  | _ => (false, 0)

/-- base 0: the base that the prefix names, and the length of a prefix that is no digit -/
def autoBase : Bytes → Nat × Nat
  | 48 :: x :: d :: _ =>
    if (x == 120 || x == 88) && (digitVal d).any (· < 16) then (16, 2) else (8, 0)
  | 48 :: _ => (8, 0)
  | _ => (10, 0)

def isDigit (base : Nat) (c : UInt8) : Bool := (digitVal c).any (· < base)

structure Converted where
  neg : Bool
  magnitude : Nat
  /-- `*endptr - nptr`, 0 where there is nothing to convert -/
  end_ : Nat

/-- what `strtoimax(s, &end, 0)` and `strtoumax(s, &end, 0)` read -/
def strto (s : Bytes) : Converted :=
  let spaces := (s.takeWhile isspace).length
  let (neg, sign) := signAt (s.drop spaces)
  let (base, skip) := autoBase (s.drop (spaces + sign))
  let number := (s.drop (spaces + sign + skip)).takeWhile (isDigit base)
  { neg := neg
    magnitude := digits base number 0
    end_ := if number = [] then 0 else spaces + sign + skip + number.length }

/-- `strtoimax` with base 0: the value, saturated, and the end -/
def strtoimax (s : Bytes) : Int × Nat :=
  let r := strto s
  (clampLong (if r.neg then -r.magnitude else r.magnitude), r.end_)

/-- `strtoumax` with base 0: a negative number is negated in `uintmax_t` -/
def strtoumax (s : Bytes) : Int × Nat :=
  let r := strto s
  (if 2 ^ 64 - 1 < r.magnitude then 2 ^ 64 - 1
   else if r.neg then (-r.magnitude : Int) % 2 ^ 64
   else r.magnitude, r.end_)

/-- `number_cast<T>` and the value that its conversion operator gives -/
structure NumberCast where
  value_ : Int
  vaild_ : Bool
deriving DecidableEq

/-- `__signed_number_cast` and `__unsigned_number_cast`, which differ in the function called -/
def castNumber (strtomax : Bytes → Int × Nat) (t : CInt) : Option Bytes → NumberCast
  | none => ⟨0, false⟩
  | some _str =>
    let (value_, end_) := strtomax (cstr _str)
    if end_ = 0 then ⟨value_, false⟩
    else if value_ < t.min then ⟨t.min, false⟩
    else if t.max < value_ then ⟨t.max, false⟩
    else ⟨value_, true⟩

def signedNumberCast : CInt → Option Bytes → NumberCast := castNumber strtoimax

def unsignedNumberCast : CInt → Option Bytes → NumberCast := castNumber strtoumax

def numberCast (t : CInt) (_str : Option Bytes) : NumberCast :=
  if t.signed then signedNumberCast t _str else unsignedNumberCast t _str

/-- `operator T()` -/
def NumberCast.toT (n : NumberCast) (t : CInt) : Int := t.cast n.value_

/-- `number_cast<T>(string_cast(v).str())` is valid and equals `v` -/
def ComesBack (t : CInt) (v : Int) : Prop :=
  ∃ text, stringCast t v 10 = some text ∧ (numberCast t (some text)).vaild_ = true ∧
    (numberCast t (some text)).toT t = v

/-! ## the two pointers -/

theorem swapLoop_get {result : Bytes} {l r : Nat} (hr : r < result.length ∨ r ≤ l) (i : Nat) :
    (swapLoop result l r)[i]? =
      if l ≤ i ∧ i ≤ r then result[l + r - i]? else result[i]? := by
  fun_induction swapLoop result l r with
  | case1 result l r hlt tmp_char result' ih =>
    have hr' : r < result.length := by omega
    have hl' : l < result.length := by omega
    have hget : ∀ j, (result'.set l tmp_char)[j]? =
        if j = l then result[r]? else if j = r then result[l]? else result[j]? := by
      intro j
      have h1 : result'.length = result.length := List.length_set
      rw [List.getElem?_set, h1, if_pos hl', List.getElem?_set, if_pos hr']
      by_cases hjl : l = j
      · rw [if_pos hjl, if_pos hjl.symm, List.getElem?_eq_getElem hr']
        congr 1
        show result.getD r 0 = _
        rw [List.getD_eq_getElem?_getD, List.getElem?_eq_getElem hr', Option.getD_some]
      · rw [if_neg hjl, if_neg (Ne.symm hjl)]
        by_cases hjr : r = j
        · rw [if_pos hjr, if_pos hjr.symm, List.getElem?_eq_getElem hl']
          congr 1
          rw [List.getD_eq_getElem?_getD, List.getElem?_eq_getElem hl', Option.getD_some]
        · rw [if_neg hjr, if_neg (Ne.symm hjr)]
    have hlen : (result'.set l tmp_char).length = result.length := by
      rw [List.length_set]
      exact List.length_set
    rw [ih (by omega), hget, hget]
    by_cases h1 : l ≤ i ∧ i ≤ r
    · rw [if_pos h1]
      by_cases hil : i = l
      · rw [if_neg (by omega), if_pos hil]
        congr 1
        omega
      · by_cases hir : i = r
        · rw [if_neg (by omega), if_neg hil, if_pos hir]
          congr 1
          omega
        · rw [if_pos (by omega), if_neg (by omega), if_neg (by omega)]
          congr 1
          omega
    · rw [if_neg h1, if_neg (by omega), if_neg (by omega), if_neg (by omega)]
  | case2 result l r hlt =>
    split
    · congr 1
      omega
    · rfl

theorem swapLoop_eq {result : Bytes} (h : result ≠ []) :
    swapLoop result 0 (result.length - 1) = result.reverse := by
  have hpos := List.length_pos_iff.mpr h
  apply List.ext_getElem?
  intro i
  rw [swapLoop_get (by omega)]
  by_cases hi : i < result.length
  · rw [if_pos (by omega), List.getElem?_reverse hi]
    congr 1
    omega
  · rw [if_neg (by omega), List.getElem?_eq_none (by omega),
      List.getElem?_eq_none (by rw [List.length_reverse]; omega)]

/-! ## the digits -/

theorem toDigits_fuel {b : Nat} (hb : 2 ≤ b) (fuel : Nat) {n : Nat} (h : n < fuel) :
    toDigits b fuel n = printNat b n := by
  unfold printNat
  induction n using Nat.strong_induction_on generalizing fuel with
  | _ n ih =>
    cases fuel with
    | zero => exact absurd h (Nat.not_lt_zero n)
    | succ fuel =>
      unfold toDigits
      by_cases hn : n < b
      · rw [if_pos hn, if_pos hn]
      · have hdiv : n / b < n := Nat.div_lt_self (by omega) hb
        rw [if_neg hn, if_neg hn, ih (n / b) hdiv fuel (by omega), ← ih (n / b) hdiv n hdiv]

theorem printNat_step {b : Nat} (hb : 2 ≤ b) (n : Nat) :
    printNat b n =
      if n < b then [digitChar n] else printNat b (n / b) ++ [digitChar (n % b)] := by
  conv_lhs => unfold printNat toDigits
  by_cases hn : n < b
  · rw [if_pos hn, if_pos hn]
  · rw [if_neg hn, if_neg hn, toDigits_fuel hb _ (Nat.div_lt_self (by omega) hb)]

theorem printNat_head {n : Nat} (h : 0 < n) : ∃ c l, printNat 10 n = c :: l ∧ c ≠ 48 := by
  induction n using Nat.strong_induction_on with
  | _ n ih =>
    rw [printNat_step (by decide)]
    by_cases hn : n < 10
    · rw [if_pos hn]
      refine ⟨_, _, rfl, ?_⟩
      interval_cases n <;> decide
    · obtain ⟨c, l, he, hc⟩ := ih (n / 10) (by omega) (by omega)
      rw [if_neg hn, he]
      exact ⟨c, l ++ [digitChar (n % 10)], rfl, hc⟩

def figure (upper_case : Bool) (d : Nat) : UInt8 :=
  if d < 10 then UInt8.ofNat (48 + d)
  else if upper_case then UInt8.ofNat (55 + d) else UInt8.ofNat (87 + d)

/-- the digits of `n` with the first one in front, and one digit for 0 -/
def numeral (b n : Nat) : List Nat := if n = 0 then [0] else (b.digits n).reverse

theorem numeral_step {b : Nat} (hb : 2 ≤ b) (n : Nat) :
    numeral b n = if n < b then [n] else numeral b (n / b) ++ [n % b] := by
  unfold numeral
  by_cases h0 : n = 0
  · rw [if_pos h0, h0, if_pos (by omega)]
  · rw [if_neg h0]
    by_cases hn : n < b
    · rw [if_pos hn, Nat.digits_of_lt b n h0 hn, List.reverse_singleton]
    · have hq : n / b ≠ 0 := fun h => hn (Nat.lt_of_div_eq_zero (by omega) h)
      rw [if_neg hn, if_neg hq, Nat.digits_def' hb (Nat.pos_of_ne_zero h0), List.reverse_cons]

theorem printNat_eq_numeral (n : Nat) : printNat 10 n = (numeral 10 n).map (figure true) := by
  have hdigit : ∀ d < 10, digitChar d = figure true d := by decide
  induction n using Nat.strong_induction_on with
  | _ n ih =>
    rw [printNat_step (by decide), numeral_step (by decide)]
    by_cases hn : n < 10
    · rw [if_pos hn, if_pos hn, List.map_singleton, hdigit n hn]
    · rw [if_neg hn, if_neg hn, List.map_append, List.map_singleton, ih (n / 10) (by omega),
        hdigit _ (Nat.mod_lt n (by decide))]

/-- the table gives the digit for a remainder of either sign -/
theorem numMapping_get (upper_case : Bool) {r : Nat} (hr : r < 36) :
    (numMapping upper_case)[35 + r]? = some (figure upper_case r) ∧
      (numMapping upper_case)[35 - r]? = some (figure upper_case r) := by
  cases upper_case
  all_goals interval_cases r
  all_goals exact ⟨by decide, by decide⟩

theorem CInt.result_of_range {t : CInt} {n : Int} (h1 : t.min ≤ n) (h2 : n ≤ t.max) :
    t.result n = some n := by
  unfold CInt.result
  rw [if_pos ⟨h1, h2⟩]

theorem CInt.bounds (t : CInt) :
    (t.signed = true ∧ t.min = -(t.max + 1) ∧ 2147483647 ≤ t.max ∧
      t.max ≤ 2 ^ 63 - 1 ∧ (t.modulus : Int) = 2 * (t.max + 1)) ∨
    (t.signed = false ∧ t.min = 0 ∧ 2147483647 ≤ t.max ∧
      t.max ≤ 2 ^ 64 - 1 ∧ (t.modulus : Int) = t.max + 1) := by
  cases t
  case int => exact Or.inl ⟨rfl, by decide, by decide, by decide, by decide⟩
  case long => exact Or.inl ⟨rfl, by decide, by decide, by decide, by decide⟩
  case longLong => exact Or.inl ⟨rfl, by decide, by decide, by decide, by decide⟩
  case unsignedInt => exact Or.inr ⟨rfl, by decide, by decide, by decide, by decide⟩
  case unsignedLong => exact Or.inr ⟨rfl, by decide, by decide, by decide, by decide⟩
  case unsignedLongLong => exact Or.inr ⟨rfl, by decide, by decide, by decide, by decide⟩

theorem tdiv_mul (n : Int) (b : Nat) :
    (0 ≤ n ∧ 0 ≤ n.tdiv b * b ∧ n = n.tdiv b * b + (n.natAbs % b : Nat)) ∨
      (n < 0 ∧ n.tdiv b * b ≤ 0 ∧ n = n.tdiv b * b - (n.natAbs % b : Nat)) := by
  have hsplit : ((n.natAbs / b : Nat) : Int) * b + (n.natAbs % b : Nat) = n.natAbs := by
    exact_mod_cast Nat.div_add_mod' n.natAbs b
  have hpos : 0 ≤ ((n.natAbs / b : Nat) : Int) * b := by positivity
  rcases lt_or_ge n 0 with h | h
  · right
    have hq : n.tdiv b = -((n.natAbs / b : Nat) : Int) := by
      conv_lhs => rw [Int.eq_neg_natAbs_of_nonpos h.le]
      rw [Int.neg_tdiv]
      rfl
    rw [hq, Int.neg_mul]
    omega
  · left
    have hq : n.tdiv b = ((n.natAbs / b : Nat) : Int) := by
      conv_lhs => rw [← Int.natAbs_of_nonneg h]
      rfl
    rw [hq]
    omega

/-- whether `35 + n` is in range, or wraps around -/
def Fits (t : CInt) (n : Int) : Prop := t.signed = false ∨ n + 35 ≤ t.max

instance (t : CInt) (n : Int) : Decidable (Fits t n) := inferInstanceAs (Decidable (_ ∨ _))

theorem digitAt_eq {t : CInt} {n : Int} (upper_case : Bool) {base : Nat} (hb : 2 ≤ base)
    (hb' : base ≤ 36) (h1 : t.min ≤ n) (h2 : n ≤ t.max) (hf : Fits t n) :
    digitAt t upper_case n (n.tdiv base) base = some (figure upper_case (n.natAbs % base)) := by
  have hr := Nat.mod_lt n.natAbs (show 0 < base by omega)
  obtain ⟨hget, hget'⟩ := numMapping_get upper_case (show n.natAbs % base < 36 by omega)
  have hd := tdiv_mul n base
  unfold digitAt
  generalize n.tdiv base * base = p at hd ⊢
  generalize n.natAbs % base = r at hd hr hget hget' ⊢
  rcases t.bounds with ⟨hs, hmin, hlo, hhi, hm⟩ | ⟨hs, hmin, hlo, hhi, hm⟩
  · have hle : n + 35 ≤ t.max := by
      rcases hf with hf | hf
      · rw [hs] at hf
        cases hf
      · exact hf
    rw [CInt.result_of_range (by omega) (by omega), Option.bind_some,
      CInt.result_of_range (by omega) (by omega), Option.bind_some,
      CInt.result_of_range (by omega) (by omega), Option.bind_some, if_neg (by omega)]
    rcases hd with ⟨h0, -, hd⟩ | ⟨h0, -, hd⟩
    · rw [show (35 + n - p).toNat = 35 + r by omega]
      exact hget
    · rw [show (35 + n - p).toNat = 35 - r by omega]
      exact hget'
  · have hsum : t.result (35 + n) = some ((35 + n) % t.modulus) := by
      by_cases hle : 35 + n ≤ t.max
      · rw [CInt.result_of_range (by omega) hle, Int.emod_eq_of_lt (by omega) (by omega)]
      · unfold CInt.result
        rw [if_neg (by omega), hs]
        rfl
    have hindex : t.result ((35 + n) % t.modulus - p) = some ((35 + r : Nat) : Int) := by
      by_cases hle : 35 + n ≤ t.max
      · rw [Int.emod_eq_of_lt (by omega) (by omega), CInt.result_of_range (by omega) (by omega)]
        congr 1
        omega
      · have he : (35 + n) % t.modulus = 35 + n - t.modulus := by
          rw [← Int.sub_emod_right, Int.emod_eq_of_lt (by omega) (by omega)]
        rw [he]
        unfold CInt.result
        rw [if_neg (by omega), hs]
        show some _ = some _
        rw [← Int.add_emod_right, Int.emod_eq_of_lt (by omega) (by omega)]
        congr 1
        omega
    rw [hsum, Option.bind_some, CInt.result_of_range (by omega) (by omega), Option.bind_some,
      hindex, Option.bind_some, if_neg (by omega)]
    exact hget

/-- **The digits.**  They are written from the last one on. -/
theorem itoaLoop_eq {t : CInt} {n : Int} (upper_case : Bool) {base : Nat} (hb : 2 ≤ base)
    (hb' : base ≤ 36) (h1 : t.min ≤ n) (h2 : n ≤ t.max) (hf : Fits t n) :
    itoaLoop t upper_case hb n =
      some ((numeral base n.natAbs).map (figure upper_case)).reverse := by
  generalize hk : n.natAbs = k
  induction k using Nat.strong_induction_on generalizing n with
  | _ k ih =>
    rw [itoaLoop, digitAt_eq upper_case hb hb' h1 h2 hf, Option.bind_some, numeral_step hb, hk]
    have hq : (n.tdiv base).natAbs = k / base := by
      rw [Int.natAbs_tdiv, hk]
      rfl
    have hz : n.tdiv base = 0 ↔ k < base := by
      rw [← Int.natAbs_eq_zero, hq]
      exact Nat.div_eq_zero_iff_lt (by omega)
    by_cases hlt : k < base
    · rw [dif_pos (hz.mpr hlt), if_pos hlt, Nat.mod_eq_of_lt hlt]
      rfl
    · rw [dif_neg (fun h => hlt (hz.mp h)), if_neg hlt, List.map_append, List.reverse_append]
      have hhalf : k / base ≤ k / 2 := Nat.div_le_div_left hb (by decide)
      have hpos : 0 ≤ n → 0 ≤ n.tdiv base := fun h => Int.tdiv_nonneg h (Int.natCast_nonneg _)
      have hbounds := t.bounds
      have hfits : Fits t (n.tdiv base) := by
        rcases hbounds with ⟨hs, hmin, hlo, hhi, hm⟩ | ⟨hs, hmin, hlo, hhi, hm⟩
        · refine Or.inr ?_
          omega
        · exact Or.inl hs
      rw [ih (k / base) (by omega) (by omega) (by omega) hfits hq]
      rfl

/-- the text of a number: a `-` for a negative one, and the digits -/
def canonical (upper_case : Bool) (base : Nat) (v : Int) : Bytes :=
  (if v < 0 then [45] else []) ++ (numeral base v.natAbs).map (figure upper_case)

theorem canonical_ten (v : Int) : canonical true 10 v = printInt v := by
  unfold canonical printInt
  rw [← printNat_eq_numeral]
  split
  · rfl
  · rw [List.nil_append, show v.natAbs = v.toNat by omega]

theorem numeral_ne_nil (b n : Nat) : numeral b n ≠ [] := by
  unfold numeral
  split
  · nofun
  · rename_i h
    rw [List.reverse_ne_nil_iff, Ne, Nat.digits_eq_nil_iff_eq_zero]
    exact h

/-- **What `string_cast_itoa` writes.** -/
theorem stringCastItoa_eq {t : CInt} {v : Int} (upper_case : Bool) {base : Nat} (hb : 2 ≤ base)
    (hb' : base ≤ 36) (h1 : t.min ≤ v) (h2 : v ≤ t.max) (hf : Fits t v) :
    stringCastItoa t v base upper_case = some (canonical upper_case base v) := by
  unfold stringCastItoa canonical
  rw [dif_pos ⟨hb, hb'⟩, itoaLoop_eq upper_case hb hb' h1 h2 hf, Option.map_some]
  congr 1
  by_cases hv : v < 0
  · simp only [if_pos hv]
    rw [swapLoop_eq (by simp), List.reverse_append, List.reverse_reverse]
    rfl
  · simp only [if_neg hv]
    rw [swapLoop_eq (by simp [numeral_ne_nil]), List.reverse_reverse]
    rfl

/-- a value of a signed type that is too great has no text -/
theorem stringCastItoa_none {t : CInt} {v : Int} (upper_case : Bool) {base : Nat} (hb : 2 ≤ base)
    (hb' : base ≤ 36) (hf : ¬ Fits t v) : stringCastItoa t v base upper_case = none := by
  have hsum : t.result (35 + v) = none := by
    unfold CInt.result
    unfold Fits at hf
    rw [not_or] at hf
    rw [if_neg (by omega), if_pos (by simpa using hf.1)]
  unfold stringCastItoa
  rw [dif_pos ⟨hb, hb'⟩, itoaLoop]
  unfold digitAt
  rw [hsum]
  rfl

theorem two_le_ten : 2 ≤ 10 := by decide

theorem printNat_length_le {n : Nat} (h : n ≤ 2 ^ 64 - 1) :
    (printNat 10 n).length ≤ 20 :=
  printNat_length (k := 19) (Nat.lt_of_le_of_lt h (by decide))

theorem stringCast_eq {t : CInt} {v : Int} (h1 : t.min ≤ v) (h2 : v ≤ t.max) (hf : Fits t v) :
    stringCast t v 10 = some (printInt v) := by
  have hitoa : stringCastItoa t v 10 true = some (printInt v) := by
    rw [stringCastItoa_eq true two_le_ten (by decide) h1 h2 hf, canonical_ten]
  have hb := t.bounds
  have hlen : (printInt v).length ≤ 21 := by
    unfold printInt
    split
    · have := printNat_length_le (n := v.natAbs) (by omega)
      rw [List.length_cons]
      omega
    · have := printNat_length_le (n := v.toNat) (by omega)
      omega
  unfold stringCast
  rw [hitoa, Option.bind_some, if_pos (by omega)]

theorem stringCast_none {t : CInt} {v : Int} (hf : ¬ Fits t v) : stringCast t v 10 = none := by
  unfold stringCast
  rw [stringCastItoa_none true two_le_ten (by decide) hf]
  rfl

/-! ## the reader -/

theorem isDigit_digitChar {r : Nat} (h : r < 10) : isDigit 10 (digitChar r) = true := by
  unfold isDigit
  rw [digitVal_digitChar (by omega)]
  simpa using h

theorem autoBase_of_head {c : UInt8} {l : Bytes} (h : c ≠ 48) : autoBase (c :: l) = (10, 0) := by
  unfold autoBase
  split
  · rename_i he
    cases he
    exact absurd rfl h
  · rename_i he
    cases he
    exact absurd rfl h
  · rfl

theorem number_printNat (n : Nat) :
    (autoBase (printNat 10 n)).2 = 0 ∧
      (printNat 10 n).takeWhile (isDigit (autoBase (printNat 10 n)).1) = printNat 10 n ∧
      digits (autoBase (printNat 10 n)).1 (printNat 10 n) 0 = n := by
  cases n with
  | zero => exact ⟨rfl, rfl, rfl⟩
  | succ n =>
    obtain ⟨c, l, he, hc⟩ := printNat_head (Nat.succ_pos n)
    have hbase : autoBase (printNat 10 (n + 1)) = (10, 0) := by
      rw [he]
      exact autoBase_of_head hc
    rw [hbase]
    refine ⟨rfl, List.takeWhile_eq_self_iff.mpr (fun c hc => ?_), ?_⟩
    · obtain ⟨d, hd, rfl⟩ := printNat_mem (by decide) hc
      exact isDigit_digitChar hd
    · exact digits_toDigits two_le_ten (by decide) (Nat.lt_succ_self _)

theorem printNat_sign (n : Nat) : signAt (printNat 10 n) = (false, 0) := by
  have hne : ∀ c ∈ printNat 10 n, c ≠ 45 ∧ c ≠ 43 := by
    intro c hc
    obtain ⟨d, hd, rfl⟩ := printNat_mem (by decide) hc
    have := (digitChar_ne (show d < 16 by omega)).2.2
    exact ⟨fun e => this (by rw [e]; decide), fun e => this (by rw [e]; decide)⟩
  unfold signAt
  split
  · rename_i he
    exact absurd rfl (hne 45 (by rw [he]; exact List.mem_cons_self)).1
  · rename_i he
    exact absurd rfl (hne 43 (by rw [he]; exact List.mem_cons_self)).2
  · rfl

theorem printInt_mem {v : Int} {c : UInt8} (hc : c ∈ printInt v) :
    isspace c = false ∧ notNul c = true := by
  have hdigit : ∀ n, c ∈ printNat 10 n → isspace c = false ∧ notNul c = true := by
    intro n hn
    obtain ⟨d, hd, rfl⟩ := printNat_mem (by decide) hn
    have := digitChar_ne (show d < 16 by omega)
    exact ⟨this.1, this.2.1⟩
  unfold printInt at hc
  split at hc
  · rcases List.mem_cons.mp hc with rfl | hc
    · exact ⟨by decide, by decide⟩
    · exact hdigit _ hc
  · exact hdigit _ hc

/-- **The reader takes back what is printed.** -/
theorem strto_printInt (v : Int) :
    strto (cstr (printInt v)) =
      { neg := decide (v < 0), magnitude := v.natAbs, end_ := (printInt v).length } := by
  have hcstr : cstr (printInt v) = printInt v :=
    Find.upTo_eq_self notNul (fun c hc => (printInt_mem hc).2)
  have hspaces : (printInt v).takeWhile isspace = [] := by
    cases he : printInt v with
    | nil => rfl
    | cons c l =>
      have hc : c ∈ printInt v := by
        rw [he]
        exact List.mem_cons_self
      exact List.takeWhile_cons_of_neg (by rw [(printInt_mem hc).1]; decide)
  obtain ⟨h0, htake, hval⟩ := number_printNat v.natAbs
  have hne : ¬ printNat 10 v.natAbs = [] := printNat_ne_nil _ _
  rw [hcstr]
  unfold strto
  simp only [hspaces, List.length_nil, List.drop_zero, Nat.zero_add]
  by_cases hv : v < 0
  · have he : printInt v = 45 :: printNat 10 v.natAbs := by
      unfold printInt
      rw [if_pos hv]
    rw [he]
    simp only [signAt, List.drop_succ_cons, List.drop_zero, h0, htake, hval, hne,
      if_false, decide_eq_true hv, List.length_cons, Nat.add_comm]
  · have he : printInt v = printNat 10 v.natAbs := by
      unfold printInt
      rw [if_neg hv]
      congr 1
      omega
    rw [he]
    simp only [printNat_sign, List.drop_zero, h0, Nat.add_zero, Nat.zero_add, htake, hval, hne,
      if_false, decide_eq_false hv]

theorem CInt.cast_of_range {t : CInt} {n : Int} (h1 : t.min ≤ n) (h2 : n ≤ t.max) :
    t.cast n = n := by
  unfold CInt.cast
  rcases t.bounds with ⟨hs, hmin, hlo, hhi, hm⟩ | ⟨hs, hmin, hlo, hhi, hm⟩
  · rw [if_pos hs, Int.bmod_eq_of_le (by omega) (by omega)]
  · rw [if_neg (by rw [hs]; exact Bool.false_ne_true), Int.emod_eq_of_lt (by omega) (by omega)]

theorem numberCast_printInt {t : CInt} {v : Int} (h1 : t.min ≤ v) (h2 : v ≤ t.max) :
    numberCast t (some (printInt v)) = ⟨v, true⟩ := by
  have hb := t.bounds
  have hend : ¬ (printInt v).length = 0 := by
    unfold printInt
    split
    · exact Nat.succ_ne_zero _
    · exact fun h => printNat_ne_nil _ _ (List.length_eq_zero_iff.mp h)
  have hread : ∀ f : Bytes → Int × Nat, f (cstr (printInt v)) = (v, (printInt v).length) →
      castNumber f t (some (printInt v)) = ⟨v, true⟩ := by
    intro f hf
    simp only [castNumber, hf, hend, if_false]
    rw [if_neg (by omega), if_neg (by omega)]
  unfold numberCast
  by_cases hs : t.signed = true
  · rw [if_pos hs]
    apply hread
    unfold strtoimax clampLong
    rw [strto_printInt]
    simp only [decide_eq_true_eq, Prod.mk.injEq, and_true]
    rcases hb with ⟨-, hmin, hlo, hhi, hm⟩ | ⟨hs', -⟩
    · split <;> omega
    · rw [hs] at hs'
      cases hs'
  · rw [if_neg hs]
    apply hread
    unfold strtoumax
    rw [strto_printInt]
    simp only [decide_eq_true_eq, Prod.mk.injEq, and_true]
    rcases hb with ⟨hs', -⟩ | ⟨-, hmin, hlo, hhi, hm⟩
    · exact absurd hs' hs
    · rw [if_neg (by omega), if_neg (by omega)]
      omega

/-- **The round trip.**  A value comes back except where the type is signed and `35 + v` is out of
its range. -/
theorem prints_back_iff (t : CInt) (v : Int) (h1 : t.min ≤ v) (h2 : v ≤ t.max) :
    ComesBack t v ↔ t.signed = false ∨ v + 35 ≤ t.max := by
  constructor
  · rintro ⟨text, htext, -⟩
    by_contra hf
    rw [stringCast_none hf] at htext
    cases htext
  · intro hf
    refine ⟨printInt v, stringCast_eq h1 h2 hf, ?_, ?_⟩
    · rw [numberCast_printInt h1 h2]
    · rw [numberCast_printInt h1 h2]
      exact CInt.cast_of_range h1 h2

theorem prints_back_iff_minimum : ComesBack .int (-2 ^ 31) :=
  (prints_back_iff .int (-2 ^ 31) (by decide) (by decide)).mpr (by decide)

/-- `35 + INT_MAX` overflows -/
theorem prints_back_maximum : CInt.int.max = 2147483647 ∧ ¬ ComesBack .int 2147483647 := by
  refine ⟨by decide, ?_⟩
  rintro ⟨text, htext, -⟩
  rw [stringCast_none (by decide)] at htext
  cases htext

end StringCast
