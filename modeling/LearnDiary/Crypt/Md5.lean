import LearnDiary.Base.RawBuffer
import LearnDiary.Crypt.Digest

/-!
# The blocks of MD5 (comm/md5.c)

The 64 operations of a block on the four registers, as the macros `R0` to `R3` write them.
`unsigned long` has 64 bits: a register holds more than its word, the rotation is only right in its
low half, and `c->A += A` drops the rest.  A result `none` is an access outside a buffer.

* `low_rotate`      the low half of `ROTATE` is a rotation of the low half;
* `view_exec`       an operation does on the low halves what the digest's operation does;
* `md5BlockDataOrder_eq`  `num` blocks of memory compress the chaining value `num` times.
-/

namespace Md5
open Digest

/-- `md5_t`; `data` has `MD5_CBLOCK` bytes -/
structure Md5T where
  A : UInt32
  B : UInt32
  C : UInt32
  D : UInt32
  Nl : UInt32
  Nh : UInt32
  data : Bytes
  num : Nat
deriving DecidableEq

/-! ## the macros -/

def F (b c d : UInt64) : UInt64 := ((c ^^^ d) &&& b) ^^^ d

def G (b c d : UInt64) : UInt64 := ((b ^^^ c) &&& d) ^^^ c

def H (b c d : UInt64) : UInt64 := b ^^^ c ^^^ d

def I (b c d : UInt64) : UInt64 := (~~~d ||| b) ^^^ c

def ROTATE (a n : UInt64) : UInt64 := a <<< n ||| (a &&& 0xffffffff) >>> (32 - n)

inductive Reg where
  | A
  | B
  | C
  | D
deriving DecidableEq

structure Regs where
  A : UInt64
  B : UInt64
  C : UInt64
  D : UInt64

def Regs.get (r : Regs) : Reg → UInt64
  | .A => r.A
  | .B => r.B
  | .C => r.C
  | .D => r.D

def Regs.set (r : Regs) (x : UInt64) : Reg → Regs
  | .A => { r with A := x }
  | .B => { r with B := x }
  | .C => { r with C := x }
  | .D => { r with D := x }

/-- the text of one line of a round: the function, the registers, word, rotation and constant -/
structure Op where
  fn : UInt64 → UInt64 → UInt64 → UInt64
  a : Reg
  b : Reg
  c : Reg
  d : Reg
  k : Nat
  s : UInt64
  t : UInt64

def R0 (a b c d : Reg) (k : Nat) (s t : UInt64) : Op := ⟨F, a, b, c, d, k, s, t⟩

def R1 (a b c d : Reg) (k : Nat) (s t : UInt64) : Op := ⟨G, a, b, c, d, k, s, t⟩

def R2 (a b c d : Reg) (k : Nat) (s t : UInt64) : Op := ⟨H, a, b, c, d, k, s, t⟩

def R3 (a b c d : Reg) (k : Nat) (s t : UInt64) : Op := ⟨I, a, b, c, d, k, s, t⟩

/-- `a += k + t + fn(b, c, d); a = ROTATE(a, s); a += b;` -/
def Op.exec (X : Nat → UInt64) (r : Regs) (o : Op) : Regs :=
  let r := r.set (r.get o.a + (X o.k + o.t + o.fn (r.get o.b) (r.get o.c) (r.get o.d))) o.a
  let r := r.set (ROTATE (r.get o.a) o.s) o.a
  r.set (r.get o.a + r.get o.b) o.a

/-- `HOST_c2l`, the `i`-th time in a block -/
def X (data : Bytes) (i : Nat) : UInt64 := (word32 data i).toUInt64

def rounds : List Op :=
  [R0 .A .B .C .D 0 7 0xd76aa478, R0 .D .A .B .C 1 12 0xe8c7b756,
   R0 .C .D .A .B 2 17 0x242070db, R0 .B .C .D .A 3 22 0xc1bdceee,
   R0 .A .B .C .D 4 7 0xf57c0faf, R0 .D .A .B .C 5 12 0x4787c62a,
   R0 .C .D .A .B 6 17 0xa8304613, R0 .B .C .D .A 7 22 0xfd469501,
   R0 .A .B .C .D 8 7 0x698098d8, R0 .D .A .B .C 9 12 0x8b44f7af,
   R0 .C .D .A .B 10 17 0xffff5bb1, R0 .B .C .D .A 11 22 0x895cd7be,
   R0 .A .B .C .D 12 7 0x6b901122, R0 .D .A .B .C 13 12 0xfd987193,
   R0 .C .D .A .B 14 17 0xa679438e, R0 .B .C .D .A 15 22 0x49b40821,
   R1 .A .B .C .D 1 5 0xf61e2562, R1 .D .A .B .C 6 9 0xc040b340,
   R1 .C .D .A .B 11 14 0x265e5a51, R1 .B .C .D .A 0 20 0xe9b6c7aa,
   R1 .A .B .C .D 5 5 0xd62f105d, R1 .D .A .B .C 10 9 0x02441453,
   R1 .C .D .A .B 15 14 0xd8a1e681, R1 .B .C .D .A 4 20 0xe7d3fbc8,
   R1 .A .B .C .D 9 5 0x21e1cde6, R1 .D .A .B .C 14 9 0xc33707d6,
   R1 .C .D .A .B 3 14 0xf4d50d87, R1 .B .C .D .A 8 20 0x455a14ed,
   R1 .A .B .C .D 13 5 0xa9e3e905, R1 .D .A .B .C 2 9 0xfcefa3f8,
   R1 .C .D .A .B 7 14 0x676f02d9, R1 .B .C .D .A 12 20 0x8d2a4c8a,
   R2 .A .B .C .D 5 4 0xfffa3942, R2 .D .A .B .C 8 11 0x8771f681,
   R2 .C .D .A .B 11 16 0x6d9d6122, R2 .B .C .D .A 14 23 0xfde5380c,
   R2 .A .B .C .D 1 4 0xa4beea44, R2 .D .A .B .C 4 11 0x4bdecfa9,
   R2 .C .D .A .B 7 16 0xf6bb4b60, R2 .B .C .D .A 10 23 0xbebfbc70,
   R2 .A .B .C .D 13 4 0x289b7ec6, R2 .D .A .B .C 0 11 0xeaa127fa,
   R2 .C .D .A .B 3 16 0xd4ef3085, R2 .B .C .D .A 6 23 0x04881d05,
   R2 .A .B .C .D 9 4 0xd9d4d039, R2 .D .A .B .C 12 11 0xe6db99e5,
   R2 .C .D .A .B 15 16 0x1fa27cf8, R2 .B .C .D .A 2 23 0xc4ac5665,
   R3 .A .B .C .D 0 6 0xf4292244, R3 .D .A .B .C 7 10 0x432aff97,
   R3 .C .D .A .B 14 15 0xab9423a7, R3 .B .C .D .A 5 21 0xfc93a039,
   R3 .A .B .C .D 12 6 0x655b59c3, R3 .D .A .B .C 3 10 0x8f0ccc92,
   R3 .C .D .A .B 10 15 0xffeff47d, R3 .B .C .D .A 1 21 0x85845dd1,
   R3 .A .B .C .D 8 6 0x6fa87e4f, R3 .D .A .B .C 15 10 0xfe2ce6e0,
   R3 .C .D .A .B 6 15 0xa3014314, R3 .B .C .D .A 13 21 0x4e0811a1,
   R3 .A .B .C .D 4 6 0xf7537e82, R3 .D .A .B .C 11 10 0xbd3af235,
   R3 .C .D .A .B 2 15 0x2ad7d2bb, R3 .B .C .D .A 9 21 0xeb86d391]

/-! ## a block -/

def Md5T.regs (c : Md5T) (block : Bytes) : Regs :=
  rounds.foldl (Op.exec (X block)) ⟨c.A.toUInt64, c.B.toUInt64, c.C.toUInt64, c.D.toUInt64⟩

/-- `c->A += A; c->B += B; c->C += C; c->D += D;` -/
def Md5T.add (c : Md5T) (r : Regs) : Md5T :=
  { c with
    A := (c.A.toUInt64 + r.A).toUInt32
    B := (c.B.toUInt64 + r.B).toUInt32
    C := (c.C.toUInt64 + r.C).toUInt32
    D := (c.D.toUInt64 + r.D).toUInt32 }

def md5BlockDataOrder (c : Md5T) (data_ : Bytes) : Nat → Option Md5T
  | 0 => some c
  | num + 1 =>
    (RawBuffer.load data_ 0 64).bind fun block =>
      md5BlockDataOrder (c.add (c.regs block)) (data_.drop 64) num

/-! ## the low halves -/

theorem low_mask (a : UInt64) : a &&& 0xffffffff = a.toUInt32.toUInt64 := by
  apply UInt64.toNat.inj
  rw [UInt64.toNat_and, UInt32.toNat_toUInt64, UInt64.toNat_toUInt32]
  exact Nat.and_two_pow_sub_one_eq_mod _ 32

theorem low_shift (x : UInt32) (n : UInt64) (h0 : 0 < n.toNat) (h : n.toNat < 32) :
    (x.toUInt64 >>> (32 - n)).toUInt32 = x >>> (32 - n.toUInt32) := by
  have hn : n.toUInt32.toNat = n.toNat := by
    rw [UInt64.toNat_toUInt32]
    omega
  have h64 : (32 - n).toNat = 32 - n.toNat := UInt64.toNat_sub_of_le _ _ h.le
  have h32 : (32 - n.toUInt32).toNat = 32 - n.toNat := by
    rw [UInt32.toNat_sub_of_le _ _ (UInt32.le_iff_toNat_le.mpr (hn ▸ h.le)), hn]
    rfl
  have hx : x.toNat >>> (32 - n.toNat) < 2 ^ 32 :=
    lt_of_le_of_lt (Nat.shiftRight_le _ _) x.toNat_lt
  apply UInt32.toNat.inj
  rw [UInt64.toNat_toUInt32, UInt64.toNat_shiftRight, UInt32.toNat_shiftRight, h64, h32,
    UInt32.toNat_toUInt64, Nat.mod_eq_of_lt (by omega : 32 - n.toNat < 64),
    Nat.mod_eq_of_lt (by omega : 32 - n.toNat < 32), Nat.mod_eq_of_lt hx]

/-- only the right shift is masked: the bits shifted out to the left stay in the high half -/
theorem low_rotate (a n : UInt64) (h0 : 0 < n.toNat) (h : n.toNat < 32) :
    (ROTATE a n).toUInt32 = rotl a.toUInt32 n.toUInt32 := by
  rw [ROTATE, rotl, UInt64.toUInt32_or, low_mask, low_shift _ n h0 h,
    UInt64.toUInt32_shiftLeft a n h]

theorem select_bit (x y z : Bool) : ((y ^^ z) && x ^^ z) = (x && y || !x && z) := by
  cases x <;> cases y <;> cases z <;> rfl

theorem select_eq (b c d : UInt32) : ((c ^^^ d) &&& b) ^^^ d = (b &&& c) ||| (~~~b &&& d) := by
  apply UInt32.toBitVec_inj.mp
  apply BitVec.eq_of_getLsbD_eq
  intro i hi
  have h := select_bit b.toBitVec[i] c.toBitVec[i] d.toBitVec[i]
  simpa [hi] using h

/-- the function of a round on the high and low halves -/
def Fits (fn : UInt64 → UInt64 → UInt64 → UInt64) (r : Round) : Prop :=
  ∀ b c d, (fn b c d).toUInt32 = r.mix b.toUInt32 c.toUInt32 d.toUInt32

theorem fits_F : Fits F .select := by
  intro b c d
  rw [F, UInt64.toUInt32_xor, UInt64.toUInt32_and, UInt64.toUInt32_xor, select_eq, Round.mix]

theorem fits_G : Fits G .majority := by
  intro b c d
  rw [G, UInt64.toUInt32_xor, UInt64.toUInt32_and, UInt64.toUInt32_xor, select_eq, Round.mix,
    UInt32.and_comm, UInt32.and_comm (~~~_)]

theorem fits_H : Fits H .parity := by
  intro b c d
  rw [H, UInt64.toUInt32_xor, UInt64.toUInt32_xor, Round.mix]

theorem fits_I : Fits I .last := by
  intro b c d
  rw [I, UInt64.toUInt32_xor, UInt64.toUInt32_or, UInt64.toUInt32_not, Round.mix, UInt32.xor_comm,
    UInt32.or_comm]

/-! ## the operations in turn -/

/-- the low halves, in the order in which operation `i` uses the registers -/
def view (r : Regs) (i : Nat) : Chain :=
  match i % 4 with
  | 0 => ⟨r.A.toUInt32, r.B.toUInt32, r.C.toUInt32, r.D.toUInt32⟩
  | 1 => ⟨r.D.toUInt32, r.A.toUInt32, r.B.toUInt32, r.C.toUInt32⟩
  | 2 => ⟨r.C.toUInt32, r.D.toUInt32, r.A.toUInt32, r.B.toUInt32⟩
  | _ => ⟨r.B.toUInt32, r.C.toUInt32, r.D.toUInt32, r.A.toUInt32⟩

def fnOf : Round → UInt64 → UInt64 → UInt64 → UInt64
  | .select => F
  | .majority => G
  | .parity => H
  | .last => I

theorem fits_fnOf (r : Round) : Fits (fnOf r) r := by
  cases r with
  | select => exact fits_F
  | majority => exact fits_G
  | parity => exact fits_H
  | last => exact fits_I

/-- the line an operation has in the source -/
def line (i : Nat) : Op :=
  let r := roundOf i
  let fn := fnOf r
  let k := r.index i
  let s := (r.shift i).toUInt64
  let t := (sines.getD i 0).toUInt64
  match i % 4 with
  | 0 => ⟨fn, .A, .B, .C, .D, k, s, t⟩
  | 1 => ⟨fn, .D, .A, .B, .C, k, s, t⟩
  | 2 => ⟨fn, .C, .D, .A, .B, k, s, t⟩
  | _ => ⟨fn, .B, .C, .D, .A, k, s, t⟩

theorem rounds_eq : rounds = (List.range 64).map line := by
  rfl

theorem shift_bounds (i : Nat) (r : Round) : 0 < (r.shift i).toNat ∧ (r.shift i).toNat < 32 := by
  have h : i % 4 < 4 := Nat.mod_lt _ (by decide)
  unfold Round.shift
  generalize i % 4 = q at h
  cases r <;> interval_cases q <;> decide

theorem low_line {fn : UInt64 → UInt64 → UInt64 → UInt64} {r : Round} (hf : Fits fn r) (i : Nat)
    (a b c d : UInt64) (x t : UInt32) :
    (ROTATE (a + (x.toUInt64 + t.toUInt64 + fn b c d)) (r.shift i).toUInt64 + b).toUInt32 =
      b.toUInt32 + rotl (a.toUInt32 + r.mix b.toUInt32 c.toUInt32 d.toUInt32 + x + t)
        (r.shift i) := by
  obtain ⟨h0, h⟩ := shift_bounds i r
  have hr := low_rotate (a + (x.toUInt64 + t.toUInt64 + fn b c d)) (r.shift i).toUInt64
    (UInt32.toNat_toUInt64 _ ▸ h0) (UInt32.toNat_toUInt64 _ ▸ h)
  have hs : (a + (x.toUInt64 + t.toUInt64 + fn b c d)).toUInt32 =
      a.toUInt32 + r.mix b.toUInt32 c.toUInt32 d.toUInt32 + x + t := by
    rw [UInt64.toUInt32_add, UInt64.toUInt32_add, UInt64.toUInt32_add, UInt32.toUInt32_toUInt64,
      UInt32.toUInt32_toUInt64, hf]
    ac_rfl
  rw [UInt64.toUInt32_add, hr, hs, UInt32.toUInt32_toUInt64, UInt32.add_comm]

theorem view_exec (block : Bytes) (r : Regs) (i : Nat) :
    view ((line i).exec (X block) r) (i + 1) = operation (word32 block) (view r i) i := by
  have hf := fits_fnOf (roundOf i)
  have h : i % 4 < 4 := Nat.mod_lt _ (by decide)
  unfold view line operation
  rcases (by omega : i % 4 = 0 ∨ i % 4 = 1 ∨ i % 4 = 2 ∨ i % 4 = 3) with e | e | e | e
  · have e' : (i + 1) % 4 = 1 := by omega
    rw [e, e']
    exact congrArg (Chain.mk _ · _ _) (low_line hf i r.A r.B r.C r.D _ _)
  · have e' : (i + 1) % 4 = 2 := by omega
    rw [e, e']
    exact congrArg (Chain.mk _ · _ _) (low_line hf i r.D r.A r.B r.C _ _)
  · have e' : (i + 1) % 4 = 3 := by omega
    rw [e, e']
    exact congrArg (Chain.mk _ · _ _) (low_line hf i r.C r.D r.A r.B _ _)
  · have e' : (i + 1) % 4 = 0 := by omega
    rw [e, e']
    exact congrArg (Chain.mk _ · _ _) (low_line hf i r.B r.C r.D r.A _ _)

theorem view_rounds (block : Bytes) (r : Regs) (n : Nat) :
    view (((List.range n).map line).foldl (Op.exec (X block)) r) n =
      (List.range n).foldl (operation (word32 block)) (view r 0) := by
  induction n with
  | zero => rfl
  | succ n ih =>
    rw [List.range_succ, List.map_append, List.foldl_append, List.foldl_append, ← ih]
    exact view_exec block _ n

/-! ## blocks of memory -/

def Md5T.chain (c : Md5T) : Chain := ⟨c.A, c.B, c.C, c.D⟩

def Md5T.withChain (c : Md5T) (s : Chain) : Md5T := { c with A := s.a, B := s.b, C := s.c, D := s.d }

theorem view_mod (r : Regs) {i j : Nat} (h : i % 4 = j % 4) : view r i = view r j := by
  unfold view
  rw [h]

theorem low_regs (c : Md5T) (block : Bytes) :
    view (c.regs block) 0 = (List.range 64).foldl (operation (word32 block)) c.chain := by
  have h := view_rounds block ⟨c.A.toUInt64, c.B.toUInt64, c.C.toUInt64, c.D.toUInt64⟩ 64
  have h0 : view ⟨c.A.toUInt64, c.B.toUInt64, c.C.toUInt64, c.D.toUInt64⟩ 0 = c.chain := by
    unfold view Md5T.chain
    simp only [UInt32.toUInt32_toUInt64, Nat.zero_mod]
  rw [← rounds_eq, h0, view_mod _ (by decide : 64 % 4 = 0 % 4)] at h
  rw [Md5T.regs, h]

theorem add_eq (c : Md5T) (r : Regs) :
    c.add r = c.withChain ⟨c.A + (view r 0).a, c.B + (view r 0).b, c.C + (view r 0).c,
      c.D + (view r 0).d⟩ := by
  unfold Md5T.add Md5T.withChain view
  simp only [UInt64.toUInt32_add, UInt32.toUInt32_toUInt64, Nat.zero_mod]

theorem add_regs (c : Md5T) (block : Bytes) :
    c.add (c.regs block) = c.withChain (compress c.chain block) := by
  rw [add_eq, low_regs]
  rfl

@[simp] theorem chain_withChain (c : Md5T) (s : Chain) : (c.withChain s).chain = s := rfl

@[simp] theorem withChain_withChain (c : Md5T) (s t : Chain) :
    (c.withChain s).withChain t = c.withChain t := rfl

theorem md5BlockDataOrder_eq (c : Md5T) (data_ : Bytes) (num : Nat) (h : num * 64 ≤ data_.length) :
    md5BlockDataOrder c data_ num =
      some (c.withChain (Absorb.blocks 64 compress num c.chain data_)) := by
  induction num generalizing c data_ with
  | zero => rfl
  | succ num ih =>
    have h64 : 0 + 64 ≤ data_.length := by omega
    have hd : num * 64 ≤ (data_.drop 64).length := by
      rw [List.length_drop]
      omega
    rw [md5BlockDataOrder, RawBuffer.load_of_le h64, Option.bind_some, List.drop_zero, ih _ _ hd,
      add_regs, chain_withChain, withChain_withChain, Absorb.blocks]

end Md5
