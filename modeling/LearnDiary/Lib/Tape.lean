import Mathlib.Data.List.Basic

/-!
# A list with a cursor

`Tape` is a list and a cursor that never stands behind its end.  The operations are the ones a byte
buffer is for: write over or behind, read on, seek, shift at the front, and change the length, which
leaves what is exposed unspecified.
-/

structure Tape (α : Type*) where
  cells : List α
  pos : Nat
  pos_le : pos ≤ cells.length

namespace Tape
variable {α : Type*}

def empty : Tape α := ⟨[], 0, Nat.zero_le ([] : List α).length⟩

/-- `d` written at `p`, over what stands there or behind the end -/
def put (l : List α) (p : Nat) (d : List α) : List α := l.take p ++ d ++ l.drop (p + d.length)

/-- `t'` has the cells `l` and the cursor `p` -/
def Is (t' : Tape α) (l : List α) (p : Nat) : Prop := t'.cells = l ∧ t'.pos = p

def Write (t : Tape α) (d : List α) (t' : Tape α) : Prop :=
  t'.Is (put t.cells t.pos d) (t.pos + d.length)

def WriteAt (t : Tape α) (p : Nat) (d : List α) (t' : Tape α) : Prop :=
  t'.Is (put t.cells p d) t.pos

/-- at most `n` cells from the cursor on -/
def ahead (t : Tape α) (n : Nat) : List α := (t.cells.drop t.pos).take n

def Read (t : Tape α) (n : Nat) (t' : Tape α) : Prop := t'.Is t.cells (t.pos + (t.ahead n).length)

/-- the cursor put to `p`, to one of the ends where `p` is outside -/
def Seek (t : Tape α) (p : Int) (t' : Tape α) : Prop := t'.Is t.cells (min p.toNat t.cells.length)

/-- `n` cells `a` in front -/
def Prepend (t : Tape α) (a : α) (n : Nat) (t' : Tape α) : Prop :=
  t'.Is (List.replicate n a ++ t.cells) (t.pos + n)

/-- the first cells dropped, at most `n`, and the cursor shifted with them -/
def Drop (t : Tape α) (n : Nat) (t' : Tape α) : Prop :=
  t'.Is (t.cells.drop (min n t.cells.length)) (t.pos - min n t.cells.length)

/-- the length set to `n`: what is kept is kept as it was -/
def Resize (t : Tape α) (n p : Nat) (t' : Tape α) : Prop :=
  ∃ new, t'.Is (t.cells.take n ++ new) p ∧ (t.cells.take n ++ new).length = n

def Same (t t' : Tape α) : Prop := t'.Is t.cells t.pos

end Tape
