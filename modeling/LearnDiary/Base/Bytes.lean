import Mathlib.Data.Int.Basic
import Mathlib.Data.List.Basic
import Mathlib.Tactic.IntervalCases
import Mathlib.Tactic.NormNum
import LearnDiary.Lib.Find

/-!
# Bytes, C strings and machine integers

A `std::string` or a piece of memory is a list of bytes.  `cstr` is what a `const char*` into it
denotes (the bytes before the first NUL).  `toInt32`, `toSizeT`, `strtol` follow the LP64 targets
of the library: `int` has 32 bits, `long`, `off_t` and `size_t` have 64.
-/

abbrev Bytes := List UInt8

def ascii (s : String) : Bytes := s.toList.map (fun c => c.toNat.toUInt8)

def notNul (c : UInt8) : Bool := c != 0

def cstr (s : Bytes) : Bytes := Find.upTo notNul s

theorem notNul_of_not_mem {s : Bytes} (h : 0 ∉ s) : ∀ c ∈ s, notNul c = true :=
  fun _ hc => bne_iff_ne.mpr fun hz => h (hz ▸ hc)

/-- the conversion `(int)`, modulo `2^32` -/
def toInt32 (n : Int) : Int := Int.bmod n (2 ^ 32)

/-- the conversion `(size_t)`, modulo `2^64` -/
def toSizeT (n : Int) : Nat := (n % 2 ^ 64).toNat

-- their values are computed by their lemmas, never by unfolding them at an open argument
attribute [irreducible] toInt32 toSizeT

theorem toInt32_of_lt {n : Nat} (h : n < 2 ^ 31) : toInt32 n = n := by
  unfold toInt32
  exact Int.bmod_eq_of_le (by omega) (by omega)

theorem toInt32_eq {n : Int} (h1 : -2 ^ 31 ≤ n) (h2 : n < 2 ^ 31) : toInt32 n = n := by
  unfold toInt32
  exact Int.bmod_eq_of_le (by omega) (by omega)

theorem toInt32_lt (n : Int) : toInt32 n < 2 ^ 31 := by
  have h := Int.bmod_lt (x := n) (m := 2 ^ 32) (by norm_num)
  unfold toInt32
  omega

theorem le_toInt32 (n : Int) : -2 ^ 31 ≤ toInt32 n := by
  have h := Int.le_bmod (x := n) (m := 2 ^ 32) (by norm_num)
  unfold toInt32
  omega

theorem toInt32_le (n : Nat) : toInt32 n ≤ n := by
  have h1 := toInt32_lt n
  rcases Nat.lt_or_ge n (2 ^ 31) with h | h
  · exact le_of_eq (toInt32_of_lt h)
  · omega

theorem toInt32_neg {n : Nat} (h1 : 2 ^ 31 ≤ n) (h2 : n < 2 ^ 32) : toInt32 n < 0 := by
  unfold toInt32
  rw [Int.bmod_def]
  split <;> omega

/-- `(int)` loses a multiple of `2^32` -/
theorem toInt32_dvd (n : Int) : (2 ^ 32 : Int) ∣ n - toInt32 n := by
  unfold toInt32
  rw [Int.bmod_def]
  split <;> omega

theorem toInt32_congr {m n : Int} (h : (2 ^ 32 : Int) ∣ m - n) : toInt32 m = toInt32 n := by
  unfold toInt32
  rw [Int.bmod_def, Int.bmod_def]
  have e : m % ((2 ^ 32 : Nat) : Int) = n % ((2 ^ 32 : Nat) : Int) := by omega
  rw [e]

theorem toInt32_add_dvd {m : Nat} (h : (2 ^ 32 : Int) ∣ m) (n : Nat) :
    toInt32 ((m + n : Nat) : Int) = toInt32 n := toInt32_congr (by omega)

theorem toSizeT_of_lt {n : Nat} (h : n < 2 ^ 64) : toSizeT n = n := by
  unfold toSizeT
  omega

/-! ## ctype, strings -/

/-- `isspace` in the C locale -/
def isspace (c : UInt8) : Bool := c == 32 || (9 ≤ c && c ≤ 13)

def tolower (c : UInt8) : UInt8 := if 65 ≤ c && c ≤ 90 then c + 32 else c

/-- `strutil::Trim` -/
def trim (s : Bytes) : Bytes := ((s.dropWhile isspace).reverse.dropWhile isspace).reverse

/-- `strutil::StartsWith` -/
def startsWith (str substr : Bytes) : Bool := Find.find substr str == some 0

theorem startsWith_eq (str substr : Bytes) : startsWith str substr = substr.isPrefixOf str := by
  rw [Bool.eq_iff_iff, List.isPrefixOf_iff_prefix]
  unfold startsWith
  rw [beq_iff_eq]
  constructor
  · exact fun h => (Find.find_spec h).1
  · exact fun h => Find.find_eq_some (Nat.zero_le _) h (fun q hq => absurd hq (Nat.not_lt_zero q))

/-- value of a digit character (any base up to 36), as `strtol` reads it -/
def digitVal (c : UInt8) : Option Nat :=
  if 48 ≤ c && c ≤ 57 then some (c.toNat - 48)
  else if 97 ≤ c && c ≤ 122 then some (c.toNat - 87)
  else if 65 ≤ c && c ≤ 90 then some (c.toNat - 55)
  else none

/-- the digits of base `b` at the front of the text, most significant first -/
def digits (b : Nat) : Bytes → Nat → Nat
  | [], acc => acc
  | c :: t, acc =>
    match digitVal c with
    | some d => if d < b then digits b t (acc * b + d) else acc
    | none => acc

/-- a `0x` that a digit follows is skipped in base 16 -/
def skip0x (b : Nat) (s : Bytes) : Bytes :=
  match b, s with
  | 16, 48 :: x :: d :: t =>
    if (x == 120 || x == 88) && (digitVal d).any (· < 16) then d :: t else s
  | _, _ => s

/-- saturation to `long` -/
def clampLong (n : Int) : Int := max (-2 ^ 63) (min n (2 ^ 63 - 1))

/-- `strtol(s, NULL, b)` for the bases the library uses -/
def strtol (b : Nat) (s : Bytes) : Int :=
  match (cstr s).dropWhile isspace with
  | 45 :: t => clampLong (-(digits b (skip0x b t) 0 : Int))
  | 43 :: t => clampLong (digits b (skip0x b t) 0)
  | t => clampLong (digits b (skip0x b t) 0)

theorem clampLong_of_lt {n : Nat} (h : n < 2 ^ 63) : clampLong n = n := by
  unfold clampLong
  omega

/-! ## text of a number: `%d` and `%x` -/

def digitChar (d : Nat) : UInt8 := if d < 10 then (48 + d).toUInt8 else (87 + d).toUInt8

/-- digits of `n` in base `b`, most significant first; `fuel` bounds their number -/
def toDigits (b : Nat) : Nat → Nat → Bytes
  | 0, _ => []
  | fuel + 1, n => if n < b then [digitChar n] else toDigits b fuel (n / b) ++ [digitChar (n % b)]

def printNat (b n : Nat) : Bytes := toDigits b (n + 1) n

/-- `%d` -/
def printInt (n : Int) : Bytes := if n < 0 then 45 :: printNat 10 n.natAbs else printNat 10 n.toNat

theorem digitVal_digitChar {d : Nat} (h : d < 36) : digitVal (digitChar d) = some d := by
  interval_cases d <;> decide

/-- what a digit character of a base up to 16 is not -/
theorem digitChar_ne {d : Nat} (h : d < 16) : isspace (digitChar d) = false ∧
    notNul (digitChar d) = true ∧ digitChar d ∉ ([45, 43, 120, 88, 13, 10, 32, 58] : Bytes) := by
  interval_cases d <;> decide

theorem toDigits_mem {b : Nat} (hb : 0 < b) {fuel n : Nat} {c : UInt8} (h : c ∈ toDigits b fuel n) :
    ∃ d, d < b ∧ c = digitChar d := by
  induction fuel generalizing n with
  | zero => cases h
  | succ fuel ih =>
    unfold toDigits at h
    split at h
    · rename_i hlt
      exact ⟨n, hlt, List.mem_singleton.mp h⟩
    · rcases List.mem_append.mp h with h | h
      · exact ih h
      · exact ⟨n % b, Nat.mod_lt n hb, List.mem_singleton.mp h⟩

theorem printNat_mem {b n : Nat} (hb : 0 < b) {c : UInt8} (h : c ∈ printNat b n) :
    ∃ d, d < b ∧ c = digitChar d := toDigits_mem hb h

theorem printNat_ne_nil (b n : Nat) : printNat b n ≠ [] := by
  unfold printNat toDigits
  split
  · exact List.cons_ne_nil _ _
  · exact fun h => List.cons_ne_nil _ _ (List.append_eq_nil_iff.mp h).2

theorem toDigits_length {b fuel n k : Nat} (h : n < b ^ (k + 1)) :
    (toDigits b fuel n).length ≤ k + 1 := by
  induction fuel generalizing n k with
  | zero => exact Nat.zero_le _
  | succ fuel ih =>
    unfold toDigits
    split
    · exact Nat.succ_le_succ (Nat.zero_le k)
    · rename_i hge
      cases k with
      | zero => exact absurd (by simpa using h) hge
      | succ k =>
        have hdiv : n / b < b ^ (k + 1) := Nat.div_lt_of_lt_mul (by rwa [← Nat.pow_succ'])
        have := ih hdiv
        rw [List.length_append, List.length_singleton]
        omega

theorem printNat_length {b n k : Nat} (h : n < b ^ (k + 1)) :
    (printNat b n).length ≤ k + 1 := toDigits_length h

theorem digits_append {b : Nat} (s t : Bytes) (acc : Nat)
    (h : ∀ c ∈ s, ∃ d, d < b ∧ digitVal c = some d) :
    digits b (s ++ t) acc = digits b t (digits b s acc) := by
  induction s generalizing acc with
  | nil => rfl
  | cons c s ih =>
    obtain ⟨d, hd, e⟩ := h c List.mem_cons_self
    have h' := ih (acc * b + d) (fun c' hc' => h c' (List.mem_cons_of_mem _ hc'))
    simpa only [List.cons_append, digits, e, if_pos hd] using h'

theorem digits_toDigits {b : Nat} (hb : 2 ≤ b) (hb' : b ≤ 36) {fuel n : Nat} (h : n < fuel) :
    digits b (toDigits b fuel n) 0 = n := by
  induction fuel generalizing n with
  | zero => exact absurd h (Nat.not_lt_zero n)
  | succ fuel ih =>
    have hpos : 0 < b := by omega
    unfold toDigits
    split
    · rename_i hlt
      simp only [digits, digitVal_digitChar (Nat.lt_of_lt_of_le hlt hb'), if_pos hlt]
      omega
    · have hmod := Nat.mod_lt n hpos
      have hdiv : n / b < fuel := by
        have h1 : n / b < n := Nat.div_lt_self (by omega) hb
        omega
      have hdm := Nat.div_add_mod n b
      rw [digits_append _ _ _ (fun c hc => ?_), ih hdiv]
      · simp only [digits, digitVal_digitChar (Nat.lt_of_lt_of_le hmod hb'), if_pos hmod]
        rw [Nat.mul_comm]
        exact hdm
      · obtain ⟨d, hd, rfl⟩ := toDigits_mem hpos hc
        exact ⟨d, hd, digitVal_digitChar (Nat.lt_of_lt_of_le hd hb')⟩

theorem dropWhile_isspace {s : Bytes} (h : ∀ c ∈ s, isspace c = false) :
    s.dropWhile isspace = s := by
  cases s with
  | nil => rfl
  | cons c s => exact List.dropWhile_cons_of_neg (by rw [h c List.mem_cons_self]; decide)

theorem trim_of_no_space {s : Bytes} (h : ∀ c ∈ s, isspace c = false) : trim s = s := by
  unfold trim
  rw [dropWhile_isspace h, dropWhile_isspace (fun c hc => h c (List.mem_reverse.mp hc)),
    List.reverse_reverse]

theorem skip0x_of_not_x {b : Nat} {s : Bytes} (h : ∀ c ∈ s, c ≠ 120 ∧ c ≠ 88) : skip0x b s = s := by
  unfold skip0x
  split
  · rename_i x d t
    obtain ⟨h1, h2⟩ := h x (List.mem_cons_of_mem _ List.mem_cons_self)
    simp [h1, h2]
  · rfl

theorem digits_plain {b : Nat} (hb' : b ≤ 16) {s : Bytes}
    (h : ∀ c ∈ s, ∃ d, d < b ∧ c = digitChar d) :
    (∀ c ∈ s, isspace c = false) ∧ (∀ c ∈ s, notNul c = true) ∧ skip0x b s = s ∧
      ∀ c ∈ s, c ∉ ([45, 43, 120, 88, 13, 10, 32, 58] : Bytes) := by
  have hd : ∀ c ∈ s, isspace c = false ∧ notNul c = true ∧
      c ∉ ([45, 43, 120, 88, 13, 10, 32, 58] : Bytes) := fun c hc => by
    obtain ⟨d, hd, rfl⟩ := h c hc
    exact digitChar_ne (Nat.lt_of_lt_of_le hd hb')
  refine ⟨fun c hc => (hd c hc).1, fun c hc => (hd c hc).2.1, ?_, fun c hc => (hd c hc).2.2⟩
  refine skip0x_of_not_x (fun c hc => ?_)
  have hne := (hd c hc).2.2
  exact ⟨fun e => hne (by rw [e]; decide), fun e => hne (by rw [e]; decide)⟩

theorem strtol_digits {b : Nat} (hb' : b ≤ 16) {s : Bytes}
    (h : ∀ c ∈ s, ∃ d, d < b ∧ c = digitChar d) : strtol b s = clampLong (digits b s 0) := by
  obtain ⟨hsp, hnul, hx, hne⟩ := digits_plain hb' h
  have hcstr : cstr s = s := Find.upTo_eq_self notNul hnul
  unfold strtol
  rw [hcstr, dropWhile_isspace hsp]
  split
  · rename_i t
    exact absurd (by decide) (hne 45 List.mem_cons_self)
  · rename_i t
    exact absurd (by decide) (hne 43 List.mem_cons_self)
  · rw [hx]

theorem strtol_minus {b : Nat} (hb' : b ≤ 16) {s : Bytes}
    (h : ∀ c ∈ s, ∃ d, d < b ∧ c = digitChar d) :
    strtol b (45 :: s) = clampLong (-(digits b s 0 : Int)) := by
  obtain ⟨-, hnul, hx, -⟩ := digits_plain hb' h
  have hcstr : cstr (45 :: s) = 45 :: s := by
    refine Find.upTo_eq_self notNul (fun c hc => ?_)
    rcases List.mem_cons.mp hc with rfl | hc
    · rfl
    · exact hnul c hc
  unfold strtol
  rw [hcstr, List.dropWhile_cons_of_neg (by decide)]
  show clampLong (-(digits b (skip0x b s) 0 : Int)) = _
  rw [hx]

/-- `strtol` reads back what `%x` and `%d` print -/
theorem strtol_printNat {b : Nat} (hb : 2 ≤ b) (hb' : b ≤ 16) {n : Nat} (h : n < 2 ^ 63) :
    strtol b (printNat b n) = n := by
  have hv : digits b (printNat b n) 0 = n := digits_toDigits hb (by omega) (Nat.lt_succ_self n)
  rw [strtol_digits hb' (fun c hc => printNat_mem (by omega) hc), hv, clampLong_of_lt h]

theorem strtol_printInt {n : Int} (h1 : -2 ^ 63 ≤ n) (h2 : n < 2 ^ 63) : strtol 10 (printInt n) = n := by
  unfold printInt
  split
  · have hv : digits 10 (printNat 10 n.natAbs) 0 = n.natAbs :=
      digits_toDigits (by decide) (by decide) (Nat.lt_succ_self _)
    rw [strtol_minus (by decide) (fun c hc => printNat_mem (by decide) hc), hv]
    unfold clampLong
    omega
  · rw [strtol_printNat (by decide) (by decide) (by omega)]
    omega
