import Mathlib.Data.List.Basic
import Mathlib.Tactic.Linarith

/-!
# Absorbing a list block by block

A state takes in blocks of `B` elements by `f`.  `absorb B f s xs` is the state after every whole
block of `xs`, `rest B xs` is what is left behind them.

* `absorb_append`, `rest_append`  a list in two pieces: the rest of the first one goes in front of
  the second;
* `absorb_block`   a whole block in front;
* `absorb_of_lt`   less than a block changes nothing.
-/

namespace Absorb
variable {α σ : Type*} (B : Nat) (f : σ → List α → σ)

/-- the state after the first `n` blocks of `xs` -/
def blocks : Nat → σ → List α → σ
  | 0, s, _ => s
  | n + 1, s, xs => blocks n (f s (xs.take B)) (xs.drop B)

def absorb (s : σ) (xs : List α) : σ := blocks B f (xs.length / B) s xs

def rest (xs : List α) : List α := xs.drop (xs.length / B * B)

theorem blocks_add (m n : Nat) (s : σ) (xs : List α) :
    blocks B f (m + n) s xs = blocks B f n (blocks B f m s xs) (xs.drop (m * B)) := by
  induction m generalizing s xs with
  | zero => rw [Nat.zero_add, Nat.zero_mul, List.drop_zero, blocks]
  | succ m ih =>
    have e : m + 1 + n = m + n + 1 := by omega
    rw [e, blocks, blocks, ih, List.drop_drop, Nat.succ_mul, Nat.add_comm (m * B) B]

theorem blocks_append (n : Nat) (s : σ) (xs ys : List α) (h : n * B ≤ xs.length) :
    blocks B f n s (xs ++ ys) = blocks B f n s xs := by
  induction n generalizing s xs with
  | zero => rfl
  | succ n ih =>
    rw [Nat.succ_mul] at h
    have hB : B ≤ xs.length := by omega
    have hd : n * B ≤ (xs.drop B).length := by
      rw [List.length_drop]
      omega
    rw [blocks, blocks, List.take_append_of_le_length hB, List.drop_append_of_le_length hB,
      ih _ _ hd]

theorem length_rest (xs : List α) : (rest B xs).length = xs.length % B := by
  have h := Nat.div_add_mod xs.length B
  rw [rest, List.length_drop, Nat.mul_comm]
  omega

theorem rest_of_lt {xs : List α} (h : xs.length < B) : rest B xs = xs := by
  rw [rest, Nat.div_eq_of_lt h, Nat.zero_mul, List.drop_zero]

theorem absorb_of_lt {xs : List α} (h : xs.length < B) (s : σ) : absorb B f s xs = s := by
  rw [absorb, Nat.div_eq_of_lt h, blocks]

theorem drop_append_rest (xs ys : List α) :
    (xs ++ ys).drop (xs.length / B * B) = rest B xs ++ ys := by
  rw [rest, List.drop_append_of_le_length (Nat.div_mul_le_self _ _)]

section
variable (hB : 0 < B)
include hB

/-- the blocks of two pieces: those of the first one, then those of its rest and the second -/
theorem length_append_div (xs ys : List α) :
    (xs ++ ys).length / B = xs.length / B + (rest B xs ++ ys).length / B := by
  have h := Nat.div_add_mod xs.length B
  have e : (xs ++ ys).length = B * (xs.length / B) + (rest B xs ++ ys).length := by
    rw [List.length_append, List.length_append, length_rest]
    omega
  rw [e, Nat.mul_add_div hB]

theorem absorb_append (s : σ) (xs ys : List α) :
    absorb B f s (xs ++ ys) = absorb B f (absorb B f s xs) (rest B xs ++ ys) := by
  rw [absorb, length_append_div B hB, blocks_add, drop_append_rest,
    blocks_append B f _ s xs ys (Nat.div_mul_le_self _ _), absorb, absorb]

theorem rest_append (xs ys : List α) : rest B (xs ++ ys) = rest B (rest B xs ++ ys) := by
  have h : rest B (xs ++ ys) = (rest B xs ++ ys).drop ((rest B xs ++ ys).length / B * B) := by
    rw [← drop_append_rest, List.drop_drop, drop_append_rest, ← Nat.add_mul,
      ← length_append_div B hB, rest]
  exact h

theorem absorb_block {b : List α} (hb : b.length = B) (s : σ) (xs : List α) :
    absorb B f s (b ++ xs) = absorb B f (f s b) xs := by
  have e : (b ++ xs).length / B = xs.length / B + 1 := by
    rw [List.length_append, hb, Nat.add_div_left _ hB]
  have ht : (b ++ xs).take B = b := by rw [← hb, List.take_left]
  have hd : (b ++ xs).drop B = xs := by rw [← hb, List.drop_left]
  rw [absorb, e, blocks, ht, hd, absorb]

theorem rest_block {b : List α} (hb : b.length = B) (xs : List α) :
    rest B (b ++ xs) = rest B xs := by
  have h0 : rest B b = [] := by
    apply List.eq_nil_of_length_eq_zero
    rw [length_rest, hb, Nat.mod_self]
  rw [rest_append B hB, h0, List.nil_append]

end

end Absorb
