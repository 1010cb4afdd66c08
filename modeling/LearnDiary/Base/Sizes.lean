import Mathlib.Data.Int.DivMod
import Mathlib.Algebra.Group.Nat.Defs
import Mathlib.Algebra.Group.Int.Defs

/-!
# `size_t` and `off_t`

Both have 64 bits; sizes are naturals and offsets integers here.  The conversions between them and
the sums and differences of sizes wrap around.
-/

/-- to `off_t` -/
def toOff (n : Int) : Int := n.bmod (2 ^ 64)

/-- `off_t` to `size_t` -/
def toSize (n : Int) : Nat := (n % 2 ^ 64).toNat

/-- `(unsigned int)n` -/
def low32 (n : Int) : Nat := (n % 2 ^ 32).toNat

def addSize (a b : Nat) : Nat := (a + b) % 2 ^ 64

def subSize (a b : Nat) : Nat := (a + 2 ^ 64 - b) % 2 ^ 64

theorem toOff_of_range {n : Int} (h : -2 ^ 63 ≤ n) (h' : n < 2 ^ 63) : toOff n = n := by
  unfold toOff
  rw [Int.bmod_eq_of_le] <;> omega

theorem toOff_of_lt {n : Int} (h : 0 ≤ n) (h' : n < 2 ^ 63) : toOff n = n :=
  toOff_of_range (by omega) h'

theorem toSize_of_lt {n : Int} (h : 0 ≤ n) (h' : n < 2 ^ 63) : (toSize n : Int) = n := by
  unfold toSize
  omega

theorem toSize_natCast {n : Nat} (h : n < 2 ^ 64) : toSize n = n := by
  unfold toSize
  omega

theorem low32_le {n : Int} (h : 0 ≤ n) : (low32 n : Int) ≤ n := by
  unfold low32
  omega

theorem addSize_of_lt {a b : Nat} (h : a + b < 2 ^ 64) : addSize a b = a + b := Nat.mod_eq_of_lt h

theorem subSize_of_le {a b : Nat} (h : b ≤ a) (h' : a - b < 2 ^ 64) : subSize a b = a - b := by
  unfold subSize
  omega

theorem subSize_le {a b : Nat} (h : b ≤ a) : subSize a b ≤ a - b := by
  unfold subSize
  omega
