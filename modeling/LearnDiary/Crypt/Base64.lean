import LearnDiary.Base.Bytes
import LearnDiary.Socket.CheckFsm

/-!
# Base64 (comm/crypt/ibase64.cc)

The target is the memory from `sTarget` on.  A read outside of the source or of a table has no
outcome, and no outcome has an `int` that overflows.  `rfc4648` is the encoding of the standard:
three bytes are one number, cut into four digits of six bits.

* `encodeBase64_eq`   what `EncodeBase64` writes;
* `decodeBase64_eq`   `DecodeBase64` of an encoding;
* `base64`            the two together.
-/

namespace Base64

abbrev Memory := Nat → UInt8

/-! ## the tables -/

structure Tables where
  char_to_base64 : Bytes
  base64_to_char : Bytes

/-- one round of the loop: the tables, `value` and `offset` -/
def initStep (s : Tables × UInt8 × UInt8) (index : UInt8) : Tables × UInt8 × UInt8 :=
  let (value, offset) :=
    if index = 26 then (97, 26) else if index = 52 then (48, 52) else s.2
  ({ base64_to_char := s.1.base64_to_char.set index.toNat (value + index - offset)
     char_to_base64 := s.1.char_to_base64.set (value + index - offset).toNat index },
    value, offset)

/-- `init_conversion_tables`, run by the first call of all -/
def initConversionTables : Tables :=
  let s : Tables := ⟨List.replicate 128 0, List.replicate 64 0⟩
  let s := (((List.range 62).map UInt8.ofNat).foldl initStep (s, 65, 0)).1
  { base64_to_char := (s.base64_to_char.set 62 43).set 63 47
    char_to_base64 := (s.char_to_base64.set 43 62).set 47 63 }

def base64ToChar (value : UInt8) : Option UInt8 :=
  initConversionTables.base64_to_char[value.toNat]?

def charToBase64 (c : UInt8) : Option UInt8 := initConversionTables.char_to_base64[c.toNat]?

/-- an `int` that is not negative -/
def int (n : Nat) : Option Nat := if n < 2 ^ 31 then some n else none

/-! ## the loops -/

/-- the two pointers, and the memory at `sTarget` -/
structure Cursor where
  p_source : Nat
  p_target : Nat
  sTarget : Memory

/-- `*p_target++ = c` -/
def Cursor.put (s : Cursor) (c : UInt8) : Cursor :=
  { s with p_target := s.p_target + 1, sTarget := Function.update s.sTarget s.p_target c }

/-- `p_source++` -/
def Cursor.next (s : Cursor) : Cursor := { s with p_source := s.p_source + 1 }

/-- `*p_source` -/
def Cursor.byte (s : Cursor) (sSrc : Bytes) : Option UInt8 := sSrc[s.p_source]?

/-- `value |= ` the bits `f` takes of the next byte, if there is one -/
def Cursor.more (s : Cursor) (sSrc : Bytes) (nSize : Nat) (f : UInt8 → UInt8) (value : UInt8) :
    Option UInt8 :=
  if s.p_source < nSize then (s.byte sSrc).map (fun c => value ||| f c) else some value

/-- `*p_target++ = base64_to_char [value]` -/
def Cursor.putDigit (s : Cursor) (value : UInt8) : Option Cursor :=
  (base64ToChar value).map s.put

/-- "Byte 1" and "Byte 2" -/
def encodeFirst (sSrc : Bytes) (nSize : Nat) (s : Cursor) : Option Cursor := do
  let c ← s.byte sSrc
  let s ← s.putDigit (c >>> 2)
  let s := s.next
  let value ← s.more sSrc nSize (fun c => (c &&& 0xF0) >>> 4) ((c &&& 0x03) <<< 4)
  s.putDigit value

/-- "Byte 3" -/
def encodeThird (sSrc : Bytes) (nSize : Nat) (s : Cursor) : Option Cursor :=
  if s.p_source < nSize then do
    let c ← s.byte sSrc
    let s := s.next
    let value ← s.more sSrc nSize (fun c => (c &&& 0xC0) >>> 6) ((c &&& 0x0F) <<< 2)
    s.putDigit value
  else some (s.put 61)

/-- "Byte 4" -/
def encodeFourth (sSrc : Bytes) (nSize : Nat) (s : Cursor) : Option Cursor :=
  if s.p_source < nSize then do
    let c ← s.byte sSrc
    s.next.putDigit (c &&& 0x3F)
  else some (s.put 61)

/-- one round of the loop of `EncodeBase64` -/
def encodeBlock (sSrc : Bytes) (nSize : Nat) (s : Cursor) : Option Cursor :=
  ((encodeFirst sSrc nSize s).bind (encodeThird sSrc nSize)).bind (encodeFourth sSrc nSize)

def encodeBlocks (sSrc : Bytes) (nSize : Nat) : Nat → Cursor → Option Cursor
  | 0, s => some s
  | nb_block + 1, s => (encodeBlock sSrc nSize s).bind (encodeBlocks sSrc nSize nb_block)

/-- `EncodeBase64`: what it returns and the memory it leaves -/
def encodeBase64 (sSrc : Bytes) (sTarget : Memory) (nSize : Nat) : Option (Nat × Memory) :=
  if nSize = 0 then some (0, sTarget)
  else do
    let nb_block := if nSize / 3 * 3 ≠ nSize then nSize / 3 + 1 else nSize / 3
    let target_size ← int (nb_block * 4)
    let s ← encodeBlocks sSrc nSize nb_block ⟨0, 0, Function.update sTarget target_size 0⟩
    pure (target_size, s.sTarget)

/-- `value = char_to_base64 [(unsigned char) * p_source++]` -/
def Cursor.take (s : Cursor) (sSrc : Bytes) : Option (UInt8 × Cursor) := do
  let c ← s.byte sSrc
  let value ← charToBase64 c
  pure (value, s.next)

/-- `*p_target = c` -/
def Cursor.assign (s : Cursor) (c : UInt8) : Cursor :=
  { s with sTarget := Function.update s.sTarget s.p_target c }

/-- `*p_target++ += c` -/
def Cursor.add (s : Cursor) (c : UInt8) : Cursor := s.put (s.sTarget s.p_target + c)

/-- one round of the loop of `DecodeBase64` -/
def decodeBlock (sSrc : Bytes) (s : Cursor) : Option Cursor := do
  let (value, s) ← s.take sSrc
  let s := s.assign (value <<< 2)
  let (value, s) ← s.take sSrc
  let s := s.add ((value &&& 0x30) >>> 4)
  let s := s.assign ((value &&& 0x0F) <<< 4)
  let (value, s) ← s.take sSrc
  let s := s.add ((value &&& 0x3C) >>> 2)
  let s := s.assign ((value &&& 0x03) <<< 6)
  let (value, s) ← s.take sSrc
  pure (s.add value)

def decodeBlocks (sSrc : Bytes) : Nat → Cursor → Option Cursor
  | 0, s => some s
  | nb_block + 1, s => (decodeBlock sSrc s).bind (decodeBlocks sSrc nb_block)

/-- the last loop, from the end to the first byte that is no `=` -/
def trim (sSrc : Bytes) : Nat → Int → Option Int
  | 0, target_size => some target_size
  | n + 1, target_size =>
    sSrc[n]?.bind (fun c => if c = 61 then trim sSrc n (target_size - 1) else some target_size)

/-- `DecodeBase64`: what it returns and the memory it leaves -/
def decodeBase64 (sSrc : Bytes) (sTarget : Memory) (nSize : Nat) : Option (Int × Memory) :=
  if nSize = 0 then some (0, sTarget)
  else do
    let nb_block := nSize / 4
    let target_size ← int (nb_block * 3)
    let s ← decodeBlocks sSrc nb_block ⟨0, 0, Function.update sTarget target_size 0⟩
    let size ← trim sSrc nSize target_size
    pure (size, s.sTarget)

/-! ## the standard -/

/-- the letters, the small letters, the figures, `+` and `/` -/
def alphabet : Bytes :=
  (List.range' 65 26 ++ List.range' 97 26 ++ List.range' 48 10 ++ [43, 47]).map UInt8.ofNat

/-- the digit for the last six bits of `n` -/
def digit (n : Nat) : UInt8 := alphabet.getD (n % 64) 0

/-- the encoding of RFC 4648, section 4; the bits behind the last byte are 0 -/
def rfc4648 : Bytes → Bytes
  | [] => []
  | [x] =>
    let n := x.toNat * 65536
    [digit (n / 262144), digit (n / 4096), 61, 61]
  | [x, y] =>
    let n := x.toNat * 65536 + y.toNat * 256
    [digit (n / 262144), digit (n / 4096), digit (n / 64), 61]
  | x :: y :: z :: l =>
    let n := x.toNat * 65536 + y.toNat * 256 + z.toNat
    digit (n / 262144) :: digit (n / 4096) :: digit (n / 64) :: digit n :: rfc4648 l

example : rfc4648 [102, 111, 111, 98] = [90, 109, 57, 118, 89, 103, 61, 61] := by decide

/-! ## memory -/

/-- the memory with the bytes `l` from `q` on -/
def store (m : Memory) (q : Nat) : Bytes → Memory
  | [] => m
  | c :: l => store (Function.update m q c) (q + 1) l

section
variable {m : Memory} {q i : Nat} {l l' : Bytes}

theorem store_append : store m q (l ++ l') = store (store m q l) (q + l.length) l' := by
  induction l generalizing m q with
  | nil => rfl
  | cons c l ih =>
    show store (Function.update m q c) (q + 1) (l ++ l') = _
    rw [ih, List.length_cons, Nat.add_assoc q 1, Nat.add_comm 1]
    rfl

theorem store_below (h : i < q) : store m q l i = m i := by
  induction l generalizing m q with
  | nil => rfl
  | cons c l ih =>
    show store (Function.update m q c) (q + 1) l i = m i
    rw [ih (Nat.lt_succ_of_lt h), Function.update_of_ne (Nat.ne_of_lt h)]

theorem store_above (h : q + l.length ≤ i) : store m q l i = m i := by
  induction l generalizing m q with
  | nil => rfl
  | cons c l ih =>
    rw [List.length_cons] at h
    show store (Function.update m q c) (q + 1) l i = m i
    rw [ih (by omega), Function.update_of_ne (by omega)]

theorem store_get {c : UInt8} (h : l[i]? = some c) : store m q l (q + i) = c := by
  induction l generalizing m q i with
  | nil => cases h
  | cons c' l ih =>
    cases i with
    | zero =>
      cases h
      show store (Function.update m q c) (q + 1) l q = c
      rw [store_below (Nat.lt_succ_self q), Function.update_self]
    | succ i =>
      have hrest := ih (m := Function.update m q c') (q := q + 1) h
      rwa [Nat.add_right_comm] at hrest

end

/-! ## digits -/

theorem base64_to_char_eq : initConversionTables.base64_to_char = alphabet := by
  decide +kernel

/-- the second table is the inverse of the first one, and 0 for everything else -/
theorem char_to_base64_eq : initConversionTables.char_to_base64 =
    (List.replicate 43 0 ++ [62, 0, 0, 0, 63] ++ List.range' 52 10 ++ List.replicate 7 0 ++
      List.range' 0 26 ++ List.replicate 6 0 ++ List.range' 26 26 ++ List.replicate 5 0).map
        UInt8.ofNat := by
  decide +kernel

theorem base64ToChar_digit (n : Nat) (h : n < 64) :
    base64ToChar (UInt8.ofNat n) = some (digit n) := by
  have hn : (UInt8.ofNat n).toNat = n := by
    rw [UInt8.toNat_ofNat']
    omega
  unfold base64ToChar digit
  rw [base64_to_char_eq, hn, Nat.mod_eq_of_lt h, List.getD_eq_getElem?_getD,
    List.getElem?_eq_getElem (by exact h)]
  rfl

theorem charToBase64_digit : ∀ n < 64, charToBase64 (digit n) = some (UInt8.ofNat n) := by
  unfold charToBase64
  rw [char_to_base64_eq]
  decide +kernel

theorem charToBase64_pad : charToBase64 61 = some 0 := by
  unfold charToBase64
  rw [char_to_base64_eq]
  decide +kernel

theorem digit_ne_pad (n : Nat) : digit n ≠ 61 := by
  have h : ∀ n < 64, digit n ≠ 61 := by
    decide +kernel
  have hmod : digit n = digit (n % 64) := by
    unfold digit
    rw [Nat.mod_mod]
  rw [hmod]
  exact h _ (Nat.mod_lt n (by decide))

theorem base64ToChar_eq {value : UInt8} {n : Nat} (h : value.toNat = n % 64) :
    base64ToChar value = some (digit n) := by
  have hv := base64ToChar_digit (n % 64) (Nat.mod_lt n (by decide))
  rw [← h, UInt8.ofNat_toNat, h] at hv
  rw [hv]
  unfold digit
  rw [Nat.mod_mod]

theorem charToBase64_eq (n : Nat) : charToBase64 (digit n) = some (UInt8.ofNat (n % 64)) := by
  have hv := charToBase64_digit (n % 64) (Nat.mod_lt n (by decide))
  rw [← hv]
  unfold digit
  rw [Nat.mod_mod]

theorem or_parts {a b : UInt8} {u v : Nat} (i : Nat) (ha : a.toNat = u * 2 ^ i) (hb : b.toNat = v)
    (hv : v < 2 ^ i) : (a ||| b).toNat = u * 2 ^ i + v := by
  rw [UInt8.toNat_or, ha, hb, ← Nat.shiftLeft_eq, Nat.shiftLeft_add_eq_or_of_lt hv]

/-- `(c & mask) << s` for a mask of the low `k` bits -/
theorem left_toNat (mask s : UInt8) (k i : Nat) (c : UInt8) (hm : mask.toNat = 2 ^ k - 1)
    (hs : s.toNat = i) (hi : i < 8) :
    ((c &&& mask) <<< s).toNat = c.toNat % 2 ^ k * 2 ^ i % 256 := by
  rw [UInt8.toNat_shiftLeft, UInt8.toNat_and, hm, hs, Nat.and_two_pow_sub_one_eq_mod,
    Nat.mod_eq_of_lt hi, Nat.shiftLeft_eq]

theorem right_toNat (mask s : UInt8) (k i : Nat) (c : UInt8) (hm : mask.toNat >>> i = 2 ^ k - 1)
    (hs : s.toNat = i) (hi : i < 8) : ((c &&& mask) >>> s).toNat = c.toNat / 2 ^ i % 2 ^ k := by
  rw [UInt8.toNat_shiftRight, UInt8.toNat_and, hs, Nat.mod_eq_of_lt hi, Nat.shiftRight_and_distrib,
    hm, Nat.and_two_pow_sub_one_eq_mod, Nat.shiftRight_eq_div_pow]

theorem value_first (x : UInt8) : (x >>> 2).toNat = x.toNat / 4 := by
  rw [UInt8.toNat_shiftRight, Nat.shiftRight_eq_div_pow]
  rfl

theorem high_second (x : UInt8) : ((x &&& 0x03) <<< 4).toNat = x.toNat % 4 * 16 := by
  have h := left_toNat 0x03 4 2 4 x rfl rfl (by decide)
  omega

theorem high_third (y : UInt8) : ((y &&& 0x0F) <<< 2).toNat = y.toNat % 16 * 4 := by
  have h := left_toNat 0x0F 2 4 2 y rfl rfl (by decide)
  omega

theorem value_second (x y : UInt8) :
    ((x &&& 0x03) <<< 4 ||| (y &&& 0xF0) >>> 4).toNat = x.toNat % 4 * 16 + y.toNat / 16 := by
  have hy := y.toNat_lt
  have hlow := right_toNat 0xF0 4 4 4 y rfl rfl (by decide)
  have hlow' : ((y &&& 0xF0) >>> 4).toNat = y.toNat / 16 := by omega
  exact or_parts 4 (high_second x) hlow' (by omega)

theorem value_third (y z : UInt8) :
    ((y &&& 0x0F) <<< 2 ||| (z &&& 0xC0) >>> 6).toNat = y.toNat % 16 * 4 + z.toNat / 64 := by
  have hz := z.toNat_lt
  have hlow := right_toNat 0xC0 6 2 6 z rfl rfl (by decide)
  have hlow' : ((z &&& 0xC0) >>> 6).toNat = z.toNat / 64 := by omega
  exact or_parts 2 (high_third y) hlow' (by omega)

theorem value_fourth (z : UInt8) : (z &&& 0x3F).toNat = z.toNat % 64 := by
  rw [UInt8.toNat_and]
  exact Nat.and_two_pow_sub_one_eq_mod z.toNat 6

/-! ## encoding -/

section
variable {sSrc l : Bytes} {s : Cursor} {c : UInt8}

theorem putDigit_eq {value : UInt8} {n : Nat} (h : value.toNat = n % 64) :
    s.putDigit value = some (s.put (digit n)) := by
  unfold Cursor.putDigit
  rw [base64ToChar_eq h]
  rfl

theorem byte_eq (h : sSrc.drop s.p_source = c :: l) : s.byte sSrc = some c := by
  unfold Cursor.byte
  rw [← List.head?_drop, h]
  rfl

theorem lt_of_drop {p : Nat} (h : sSrc.drop p = c :: l) : p < sSrc.length := by
  by_contra hle
  rw [List.drop_eq_nil_of_le (Nat.le_of_not_lt hle)] at h
  cases h

theorem drop_next {p : Nat} (h : sSrc.drop p = c :: l) : sSrc.drop (p + 1) = l := by
  rw [← List.drop_drop, h]
  rfl

theorem more_eq {f : UInt8 → UInt8} {value : UInt8} (h : sSrc.drop s.p_source = c :: l) :
    s.more sSrc sSrc.length f value = some (value ||| f c) := by
  unfold Cursor.more
  rw [if_pos (lt_of_drop h), byte_eq h]
  rfl

theorem more_end {f : UInt8 → UInt8} {value : UInt8} (h : sSrc.drop s.p_source = []) :
    s.more sSrc sSrc.length f value = some value := by
  unfold Cursor.more
  rw [if_neg (Nat.not_lt.mpr (List.drop_eq_nil_iff.mp h))]

theorem encodeFirst_one {x : UInt8} (h : sSrc.drop s.p_source = [x]) :
    encodeFirst sSrc sSrc.length s = some (((s.put (digit (x.toNat * 65536 / 262144))).next).put
      (digit (x.toNat * 65536 / 4096))) := by
  have hx := x.toNat_lt
  have h1 : (x >>> 2).toNat = x.toNat * 65536 / 262144 % 64 := by
    rw [value_first]
    omega
  have h2 : ((x &&& 0x03) <<< 4).toNat = x.toNat * 65536 / 4096 % 64 := by
    rw [high_second]
    omega
  have hend : sSrc.drop (s.p_source + 1) = [] := drop_next h
  unfold encodeFirst
  rw [byte_eq h]
  show (s.putDigit _).bind _ = _
  rw [putDigit_eq h1]
  show (Cursor.more _ _ _ _ _).bind _ = _
  rw [more_end (s := (s.put _).next) hend]
  exact putDigit_eq h2

theorem encodeFirst_two {x y : UInt8} (n : Nat) (hn : n < 256)
    (h : sSrc.drop s.p_source = x :: y :: l) :
    encodeFirst sSrc sSrc.length s =
      some (((s.put (digit ((x.toNat * 65536 + y.toNat * 256 + n) / 262144))).next).put
        (digit ((x.toNat * 65536 + y.toNat * 256 + n) / 4096))) := by
  have hx := x.toNat_lt
  have hy := y.toNat_lt
  have h1 : (x >>> 2).toNat = (x.toNat * 65536 + y.toNat * 256 + n) / 262144 % 64 := by
    rw [value_first]
    omega
  have h2 : ((x &&& 0x03) <<< 4 ||| (y &&& 0xF0) >>> 4).toNat =
      (x.toNat * 65536 + y.toNat * 256 + n) / 4096 % 64 := by
    rw [value_second]
    omega
  have hnext : sSrc.drop (s.p_source + 1) = y :: l := drop_next h
  unfold encodeFirst
  rw [byte_eq h]
  show (s.putDigit _).bind _ = _
  rw [putDigit_eq h1]
  show (Cursor.more _ _ _ _ _).bind _ = _
  rw [more_eq (s := (s.put _).next) hnext]
  exact putDigit_eq h2

theorem pads (h : sSrc.drop s.p_source = []) :
    encodeThird sSrc sSrc.length s = some (s.put 61) ∧
      encodeFourth sSrc sSrc.length s = some (s.put 61) := by
  have hend := Nat.not_lt.mpr (List.drop_eq_nil_iff.mp h)
  exact ⟨if_neg hend, if_neg hend⟩

theorem encodeThird_one {x y : UInt8} (h : sSrc.drop s.p_source = [y]) :
    encodeThird sSrc sSrc.length s =
      some ((s.next).put (digit ((x.toNat * 65536 + y.toNat * 256) / 64))) := by
  have hy := y.toNat_lt
  have h3 : ((y &&& 0x0F) <<< 2).toNat = (x.toNat * 65536 + y.toNat * 256) / 64 % 64 := by
    rw [high_third]
    omega
  have hend : sSrc.drop (s.p_source + 1) = [] := drop_next h
  unfold encodeThird
  rw [if_pos (lt_of_drop h), byte_eq h]
  show (Cursor.more _ _ _ _ _).bind _ = _
  rw [more_end (s := s.next) hend]
  exact putDigit_eq h3

theorem encodeThird_two {x y z : UInt8} (h : sSrc.drop s.p_source = y :: z :: l) :
    encodeThird sSrc sSrc.length s =
      some ((s.next).put (digit ((x.toNat * 65536 + y.toNat * 256 + z.toNat) / 64))) := by
  have hy := y.toNat_lt
  have hz := z.toNat_lt
  have h3 : ((y &&& 0x0F) <<< 2 ||| (z &&& 0xC0) >>> 6).toNat =
      (x.toNat * 65536 + y.toNat * 256 + z.toNat) / 64 % 64 := by
    rw [value_third]
    omega
  have hnext : sSrc.drop (s.p_source + 1) = z :: l := drop_next h
  unfold encodeThird
  rw [if_pos (lt_of_drop h), byte_eq h]
  show (Cursor.more _ _ _ _ _).bind _ = _
  rw [more_eq (s := s.next) hnext]
  exact putDigit_eq h3

theorem encodeFourth_one {x y z : UInt8} (h : sSrc.drop s.p_source = z :: l) :
    encodeFourth sSrc sSrc.length s =
      some ((s.next).put (digit (x.toNat * 65536 + y.toNat * 256 + z.toNat))) := by
  have h4 : (z &&& 0x3F).toNat = (x.toNat * 65536 + y.toNat * 256 + z.toNat) % 64 := by
    rw [value_fourth]
    omega
  unfold encodeFourth
  rw [if_pos (lt_of_drop h), byte_eq h]
  exact putDigit_eq h4

/-- the cursor behind a block of `k` bytes -/
def Cursor.wrote (s : Cursor) (k : Nat) (l : Bytes) : Cursor :=
  ⟨s.p_source + k, s.p_target + l.length, store s.sTarget s.p_target l⟩

theorem encodeBlock_one {x : UInt8} (h : sSrc.drop s.p_source = [x]) :
    encodeBlock sSrc sSrc.length s = some (s.wrote 1 (rfc4648 [x])) := by
  have hend : sSrc.drop (s.p_source + 1) = [] := drop_next h
  unfold encodeBlock
  rw [encodeFirst_one h]
  show (encodeThird sSrc sSrc.length _).bind _ = _
  rw [(pads (s := ((s.put _).next).put _) hend).1]
  exact (pads (s := (((s.put _).next).put _).put _) hend).2

theorem encodeBlock_two {x y : UInt8} (h : sSrc.drop s.p_source = [x, y]) :
    encodeBlock sSrc sSrc.length s = some (s.wrote 2 (rfc4648 [x, y])) := by
  have hnext : sSrc.drop (s.p_source + 1) = [y] := drop_next h
  have hend : sSrc.drop (s.p_source + 1 + 1) = [] := drop_next hnext
  have hfirst := encodeFirst_two 0 (by decide) h
  rw [Nat.add_zero] at hfirst
  unfold encodeBlock
  rw [hfirst]
  show (encodeThird sSrc sSrc.length _).bind _ = _
  rw [encodeThird_one (x := x) (s := ((s.put _).next).put _) hnext]
  exact (pads (s := ((((s.put _).next).put _).next).put _) hend).2

theorem encodeBlock_three {x y z : UInt8} (h : sSrc.drop s.p_source = x :: y :: z :: l) :
    encodeBlock sSrc sSrc.length s = some (s.wrote 3 (rfc4648 [x, y, z])) := by
  have hnext : sSrc.drop (s.p_source + 1) = y :: z :: l := drop_next h
  have hlast : sSrc.drop (s.p_source + 1 + 1) = z :: l := drop_next hnext
  unfold encodeBlock
  rw [encodeFirst_two z.toNat z.toNat_lt h]
  show (encodeThird sSrc sSrc.length _).bind _ = _
  rw [encodeThird_two (x := x) (s := ((s.put _).next).put _) hnext]
  exact encodeFourth_one (x := x) (y := y) (s := ((((s.put _).next).put _).next).put _) hlast

theorem encodeBlocks_eq (h : sSrc.drop s.p_source = l) :
    ∃ s', encodeBlocks sSrc sSrc.length ((l.length + 2) / 3) s = some s' ∧
      s'.sTarget = store s.sTarget s.p_target (rfc4648 l) := by
  induction l using rfc4648.induct generalizing s with
  | case1 => exact ⟨s, rfl, rfl⟩
  | case2 x =>
    refine ⟨s.wrote 1 (rfc4648 [x]), ?_, rfl⟩
    have hone : ([x].length + 2) / 3 = 1 := by
      simp only [List.length_cons, List.length_nil]
    rw [hone, encodeBlocks, encodeBlock_one h]
    rfl
  | case3 x y =>
    refine ⟨s.wrote 2 (rfc4648 [x, y]), ?_, rfl⟩
    have hone : ([x, y].length + 2) / 3 = 1 := by
      simp only [List.length_cons, List.length_nil]
    rw [hone, encodeBlocks, encodeBlock_two h]
    rfl
  | case4 x y z l ih =>
    have hnext : sSrc.drop (s.p_source + 1 + 1 + 1) = l := drop_next (drop_next (drop_next h))
    obtain ⟨s', hs', hm⟩ := ih (s := s.wrote 3 (rfc4648 [x, y, z])) hnext
    refine ⟨s', ?_, hm.trans ?_⟩
    · have hlen : ((x :: y :: z :: l).length + 2) / 3 = (l.length + 2) / 3 + 1 := by
        simp only [List.length_cons]
        omega
      rw [hlen, encodeBlocks, encodeBlock_three h]
      exact hs'
    · have hsplit : rfc4648 (x :: y :: z :: l) = rfc4648 [x, y, z] ++ rfc4648 l := rfl
      rw [hsplit, store_append]
      rfl

theorem blocks (n : Nat) : (if n / 3 * 3 ≠ n then n / 3 + 1 else n / 3) = (n + 2) / 3 := by
  split
  · omega
  · omega

theorem length_rfc4648 (l : Bytes) : (rfc4648 l).length = 4 * ((l.length + 2) / 3) := by
  induction l using rfc4648.induct with
  | case1 => rfl
  | case2 x =>
    have hfour : (rfc4648 [x]).length = 4 := rfl
    rw [hfour, List.length_singleton]
  | case3 x y =>
    have hfour : (rfc4648 [x, y]).length = 4 := rfl
    rw [hfour, List.length_cons, List.length_singleton]
  | case4 x y z l ih =>
    have hsplit : rfc4648 (x :: y :: z :: l) = rfc4648 [x, y, z] ++ rfc4648 l := rfl
    have hfour : (rfc4648 [x, y, z]).length = 4 := rfl
    rw [hsplit, List.length_append, hfour, ih]
    simp only [List.length_cons]
    omega

/-- **What `EncodeBase64` writes**: the encoding, a NUL behind it, and nothing else. -/
theorem encodeBase64_eq {x : Bytes} (hne : x ≠ []) (hsize : x.length < 2 ^ 29) (m : Memory) :
    encodeBase64 x m x.length = some (4 * ((x.length + 2) / 3),
      store (Function.update m (4 * ((x.length + 2) / 3)) 0) 0 (rfc4648 x)) := by
  have hlen : x.length ≠ 0 := fun h => hne (List.eq_nil_of_length_eq_zero h)
  have hint : int ((x.length + 2) / 3 * 4) = some (4 * ((x.length + 2) / 3)) := by
    unfold int
    rw [if_pos (by omega), Nat.mul_comm]
  obtain ⟨s', hs', hm⟩ := encodeBlocks_eq (l := x)
    (s := ⟨0, 0, Function.update m (4 * ((x.length + 2) / 3)) 0⟩) (show x.drop 0 = x from rfl)
  unfold encodeBase64
  rw [if_neg hlen]
  dsimp only
  rw [blocks, hint]
  show (encodeBlocks x x.length _ _).bind _ = _
  rw [hs']
  show some (_, s'.sTarget) = _
  rw [hm]

/-! ## decoding -/

def bytes (n : Nat) : Bytes := [UInt8.ofNat (n / 65536), UInt8.ofNat (n / 256), UInt8.ofNat n]

theorem joined_first (n : Nat) : UInt8.ofNat (n / 262144 % 64) <<< 2 +
    (UInt8.ofNat (n / 4096 % 64) &&& 0x30) >>> 4 = UInt8.ofNat (n / 65536) := by
  have h1 : (UInt8.ofNat (n / 262144 % 64) <<< 2).toNat =
      (UInt8.ofNat (n / 262144 % 64)).toNat * 4 % 256 := by
    rw [UInt8.toNat_shiftLeft, Nat.shiftLeft_eq]
    rfl
  have h2 := right_toNat 0x30 4 2 4
    (UInt8.ofNat (n / 4096 % 64)) rfl rfl (by decide)
  rw [UInt8.toNat_ofNat'] at h1 h2
  rw [← UInt8.toNat_inj, UInt8.toNat_add, h1, h2, UInt8.toNat_ofNat']
  omega

theorem joined_second (n : Nat) : (UInt8.ofNat (n / 4096 % 64) &&& 0x0F) <<< 4 +
    (UInt8.ofNat (n / 64 % 64) &&& 0x3C) >>> 2 = UInt8.ofNat (n / 256) := by
  have h1 := left_toNat 0x0F 4 4 4
    (UInt8.ofNat (n / 4096 % 64)) rfl rfl (by decide)
  have h2 := right_toNat 0x3C 2 4 2
    (UInt8.ofNat (n / 64 % 64)) rfl rfl (by decide)
  rw [UInt8.toNat_ofNat'] at h1 h2
  rw [← UInt8.toNat_inj, UInt8.toNat_add, h1, h2, UInt8.toNat_ofNat']
  omega

theorem joined_third (n : Nat) : (UInt8.ofNat (n / 64 % 64) &&& 0x03) <<< 6 +
    UInt8.ofNat (n % 64) = UInt8.ofNat n := by
  have h1 := left_toNat 0x03 6 2 6
    (UInt8.ofNat (n / 64 % 64)) rfl rfl (by decide)
  rw [UInt8.toNat_ofNat'] at h1
  rw [← UInt8.toNat_inj, UInt8.toNat_add, h1, UInt8.toNat_ofNat', UInt8.toNat_ofNat']
  omega

theorem assign_add (s : Cursor) (a b : UInt8) :
    ((s.assign a).next).add b = (s.next).put (a + b) := by
  unfold Cursor.add Cursor.next Cursor.assign Cursor.put
  dsimp only
  rw [Function.update_self, Function.update_idem]

theorem take_eq (h : sSrc.drop s.p_source = c :: l) :
    s.take sSrc = (charToBase64 c).map (fun v => (v, s.next)) := by
  unfold Cursor.take
  rw [byte_eq h, Option.map_eq_bind]
  rfl

/-- **One round of the loop**: it has an outcome when all four entries of the table are there, and
then it writes three bytes. -/
theorem decodeBlock_bind {c₀ c₁ c₂ c₃ : UInt8}
    (h : sSrc.drop s.p_source = c₀ :: c₁ :: c₂ :: c₃ :: l) :
    decodeBlock sSrc s =
      (charToBase64 c₀).bind fun v₀ => (charToBase64 c₁).bind fun v₁ =>
      (charToBase64 c₂).bind fun v₂ => (charToBase64 c₃).bind fun v₃ =>
        some (s.wrote 4 [v₀ <<< 2 + (v₁ &&& 0x30) >>> 4,
          (v₁ &&& 0x0F) <<< 4 + (v₂ &&& 0x3C) >>> 2, (v₂ &&& 0x03) <<< 6 + v₃]) := by
  have d1 : sSrc.drop (s.p_source + 1) = c₁ :: c₂ :: c₃ :: l := drop_next h
  have d2 : sSrc.drop (s.p_source + 1 + 1) = c₂ :: c₃ :: l := drop_next d1
  have d3 : sSrc.drop (s.p_source + 1 + 1 + 1) = c₃ :: l := drop_next d2
  unfold decodeBlock
  rw [take_eq h]
  cases charToBase64 c₀ with
  | none => rfl
  | some v₀ =>
    show (Cursor.take ((s.next).assign _) sSrc).bind _ = _
    rw [take_eq (s := (s.next).assign _) d1]
    cases charToBase64 c₁ with
    | none => rfl
    | some v₁ =>
      show (Cursor.take (((((s.next).assign _).next).add _).assign _) sSrc).bind _ = _
      rw [assign_add, take_eq (s := ((s.next.next).put _).assign _) d2]
      cases charToBase64 c₂ with
      | none => rfl
      | some v₂ =>
        show (Cursor.take ((((((s.next.next).put _).assign _).next).add _).assign _) sSrc).bind _ = _
        rw [assign_add, take_eq (s := (((((s.next.next).put _).next).put _).assign _)) d3]
        cases charToBase64 c₃ with
        | none => rfl
        | some v₃ =>
          show some (((((((s.next.next).put _).next).put _).assign _).next).add _) = _
          rw [assign_add]
          rfl

/-- four characters that stand for the digits of `n` -/
def Digits (n : Nat) (c₀ c₁ c₂ c₃ : UInt8) : Prop :=
  charToBase64 c₀ = some (UInt8.ofNat (n / 262144 % 64)) ∧
  charToBase64 c₁ = some (UInt8.ofNat (n / 4096 % 64)) ∧
  charToBase64 c₂ = some (UInt8.ofNat (n / 64 % 64)) ∧
  charToBase64 c₃ = some (UInt8.ofNat (n % 64))

theorem decodeBlock_eq {n : Nat} {c₀ c₁ c₂ c₃ : UInt8} (hd : Digits n c₀ c₁ c₂ c₃)
    (h : sSrc.drop s.p_source = c₀ :: c₁ :: c₂ :: c₃ :: l) :
    decodeBlock sSrc s = some (s.wrote 4 (bytes n)) := by
  obtain ⟨h0, h1, h2, h3⟩ := hd
  rw [decodeBlock_bind h, h0, h1, h2, h3]
  simp only [Option.bind_some, joined_first, joined_second, joined_third]
  rfl

theorem digits_one (x : UInt8) : Digits (x.toNat * 65536) (digit (x.toNat * 65536 / 262144))
    (digit (x.toNat * 65536 / 4096)) 61 61 := by
  have h2 : x.toNat * 65536 / 64 % 64 = 0 := by omega
  have h3 : x.toNat * 65536 % 64 = 0 := by omega
  refine ⟨charToBase64_eq _, charToBase64_eq _, ?_, ?_⟩
  · rw [h2]
    exact charToBase64_pad
  · rw [h3]
    exact charToBase64_pad

theorem digits_two (x y : UInt8) : Digits (x.toNat * 65536 + y.toNat * 256)
    (digit ((x.toNat * 65536 + y.toNat * 256) / 262144))
    (digit ((x.toNat * 65536 + y.toNat * 256) / 4096))
    (digit ((x.toNat * 65536 + y.toNat * 256) / 64)) 61 := by
  have h3 : (x.toNat * 65536 + y.toNat * 256) % 64 = 0 := by omega
  refine ⟨charToBase64_eq _, charToBase64_eq _, charToBase64_eq _, ?_⟩
  rw [h3]
  exact charToBase64_pad

theorem bytes_eq (x y z : UInt8) :
    bytes (x.toNat * 65536 + y.toNat * 256 + z.toNat) = [x, y, z] := by
  have hx := x.toNat_lt
  have hy := y.toNat_lt
  have hz := z.toNat_lt
  have h1 : UInt8.ofNat ((x.toNat * 65536 + y.toNat * 256 + z.toNat) / 65536) = x := by
    rw [← UInt8.toNat_inj, UInt8.toNat_ofNat']
    omega
  have h2 : UInt8.ofNat ((x.toNat * 65536 + y.toNat * 256 + z.toNat) / 256) = y := by
    rw [← UInt8.toNat_inj, UInt8.toNat_ofNat']
    omega
  have h3 : UInt8.ofNat (x.toNat * 65536 + y.toNat * 256 + z.toNat) = z := by
    rw [← UInt8.toNat_inj, UInt8.toNat_ofNat']
    omega
  unfold bytes
  rw [h1, h2, h3]

def padding (n : Nat) : Nat := (3 - n % 3) % 3

theorem decodeBlocks_eq (h : sSrc.drop s.p_source = rfc4648 l) :
    ∃ s', decodeBlocks sSrc ((l.length + 2) / 3) s = some s' ∧
      s'.sTarget = store s.sTarget s.p_target (l ++ List.replicate (padding l.length) 0) := by
  induction l using rfc4648.induct generalizing s with
  | case1 => exact ⟨s, rfl, rfl⟩
  | case2 x =>
    have hone : ([x].length + 2) / 3 = 1 := by
      simp only [List.length_cons, List.length_nil]
    have hbytes := bytes_eq x 0 0
    rw [UInt8.toNat_zero, Nat.zero_mul, Nat.add_zero] at hbytes
    refine ⟨s.wrote 4 [x, 0, 0], ?_, rfl⟩
    rw [hone, decodeBlocks, decodeBlock_eq (digits_one x) h, hbytes]
    rfl
  | case3 x y =>
    have hone : ([x, y].length + 2) / 3 = 1 := by
      simp only [List.length_cons, List.length_nil]
    have hbytes := bytes_eq x y 0
    rw [UInt8.toNat_zero, Nat.add_zero] at hbytes
    refine ⟨s.wrote 4 [x, y, 0], ?_, rfl⟩
    rw [hone, decodeBlocks, decodeBlock_eq (digits_two x y) h, hbytes]
    rfl
  | case4 x y z l ih =>
    have hd : Digits (x.toNat * 65536 + y.toNat * 256 + z.toNat) _ _ _ _ :=
      ⟨charToBase64_eq _, charToBase64_eq _, charToBase64_eq _, charToBase64_eq _⟩
    have hnext : sSrc.drop (s.p_source + 4) = rfc4648 l :=
      drop_next (drop_next (drop_next (drop_next h)))
    obtain ⟨s', hs', hm⟩ := ih (s := s.wrote 4 [x, y, z]) hnext
    refine ⟨s', ?_, hm.trans ?_⟩
    · have hlen : ((x :: y :: z :: l).length + 2) / 3 = (l.length + 2) / 3 + 1 := by
        simp only [List.length_cons]
        omega
      rw [hlen, decodeBlocks, decodeBlock_eq hd h, bytes_eq]
      exact hs'
    · have hpad : padding (x :: y :: z :: l).length = padding l.length := by
        unfold padding
        simp only [List.length_cons]
        omega
      rw [hpad]
      rfl

/-! ## the padding -/

theorem rfc4648_end (hne : l ≠ []) :
    ∃ before n, rfc4648 l = before ++ digit n :: List.replicate (padding l.length) 61 := by
  induction l using rfc4648.induct with
  | case1 => exact absurd rfl hne
  | case2 x => exact ⟨[_], _, rfl⟩
  | case3 x y => exact ⟨[_, _], _, rfl⟩
  | case4 x y z l ih =>
    have hsplit : rfc4648 (x :: y :: z :: l) = rfc4648 [x, y, z] ++ rfc4648 l := rfl
    have hpad : padding (x :: y :: z :: l).length = padding l.length := by
      unfold padding
      simp only [List.length_cons]
      omega
    cases l with
    | nil =>
      have hpad : padding [x, y, z].length = 0 := by
        simp only [padding, List.length_cons, List.length_nil]
      have hlast : rfc4648 [x, y, z] = [_, _, _] ++ digit _ :: [] := rfl
      rw [hpad]
      exact ⟨_, _, hlast⟩
    | cons w l =>
      obtain ⟨before, n, hl⟩ := ih nofun
      refine ⟨rfc4648 [x, y, z] ++ before, n, ?_⟩
      rw [hsplit, hl, hpad, List.append_assoc]

theorem trim_eq {before : Bytes} {k j : Nat} (hc : c ≠ 61) (hj : j ≤ k) (t : Int) :
    trim (before ++ c :: List.replicate k 61) (before.length + 1 + j) t = some (t - j) := by
  induction j generalizing t with
  | zero =>
    have hget : (before ++ c :: List.replicate k 61)[before.length]? = some c := by
      rw [List.getElem?_append_right (Nat.le_refl _), Nat.sub_self]
      rfl
    rw [Nat.add_zero, trim, hget]
    show (if c = 61 then _ else _) = _
    rw [if_neg hc]
    simp
  | succ j ih =>
    have hget : (before ++ c :: List.replicate k 61)[before.length + 1 + j]? = some 61 := by
      rw [List.getElem?_append_right (by omega),
        show before.length + 1 + j - before.length = j + 1 by omega, List.getElem?_cons_succ,
        List.getElem?_replicate, if_pos (by omega)]
    rw [← Nat.add_assoc, trim, hget]
    show (if (61 : UInt8) = 61 then trim _ _ (t - 1) else some t) = _
    rw [if_pos rfl, ih (by omega)]
    congr 1
    push_cast
    omega

/-- **`DecodeBase64` of an encoding**: the bytes come back, and their number is returned. -/
theorem decodeBase64_eq {x : Bytes} (hne : x ≠ []) (hsize : x.length < 2 ^ 29) (m : Memory) :
    decodeBase64 (rfc4648 x) m (rfc4648 x).length = some ((x.length : Int),
      store (Function.update m (3 * ((x.length + 2) / 3)) 0) 0
        (x ++ List.replicate (padding x.length) 0)) := by
  have hlen : x.length ≠ 0 := fun h => hne (List.eq_nil_of_length_eq_zero h)
  have hfour := length_rfc4648 x
  have hblocks : (rfc4648 x).length / 4 = (x.length + 2) / 3 := by omega
  have hint : int ((x.length + 2) / 3 * 3) = some (3 * ((x.length + 2) / 3)) := by
    unfold int
    rw [if_pos (by omega), Nat.mul_comm]
  obtain ⟨s', hs', hm⟩ := decodeBlocks_eq (l := x)
    (s := ⟨0, 0, Function.update m (3 * ((x.length + 2) / 3)) 0⟩)
    (show (rfc4648 x).drop 0 = rfc4648 x from rfl)
  have htrim : trim (rfc4648 x) (rfc4648 x).length ((3 * ((x.length + 2) / 3) : Nat) : Int) =
      some (x.length : Int) := by
    obtain ⟨before, n, hx⟩ := rfc4648_end hne
    have hl : (rfc4648 x).length = before.length + 1 + padding x.length := by
      rw [hx, List.length_append, List.length_cons, List.length_replicate]
      omega
    rw [hl, hx, trim_eq (digit_ne_pad n) (Nat.le_refl _)]
    congr 1
    unfold padding
    omega
  unfold decodeBase64
  rw [if_neg (by omega)]
  dsimp only
  rw [hblocks, hint]
  show (decodeBlocks (rfc4648 x) _ _).bind _ = _
  rw [hs']
  show (trim _ _ _).bind _ = _
  rw [htrim]
  show some (_, s'.sTarget) = _
  rw [hm]

end

/-! ## both together -/

/-- **Encoding and decoding**, for every string shorter than 2^29: the encoding of the standard with
a NUL behind it, of the empty string nothing; and the string back from its encoding. -/
theorem base64 (x : Bytes) (hsize : x.length < 2 ^ 29) (m m₂ : Memory) :
    (x = [] → encodeBase64 x m x.length = some (0, m)) ∧
    (x ≠ [] → ∃ m', encodeBase64 x m x.length = some (4 * ((x.length + 2) / 3), m') ∧
      (∀ i c, (rfc4648 x)[i]? = some c → m' i = c) ∧ m' (4 * ((x.length + 2) / 3)) = 0 ∧
      ∀ i > 4 * ((x.length + 2) / 3), m' i = m i) ∧
    (rfc4648 x).length = 4 * ((x.length + 2) / 3) ∧
    ∃ m₂', decodeBase64 (rfc4648 x) m₂ (rfc4648 x).length = some ((x.length : Int), m₂') ∧
      ∀ i c, x[i]? = some c → m₂' i = c := by
  have hlen := length_rfc4648 x
  refine ⟨fun hnil => ?_, fun hne => ⟨_, encodeBase64_eq hne hsize m, ?_, ?_, ?_⟩, hlen, ?_⟩
  · subst hnil
    rfl
  · intro i c hc
    have hget := store_get (m := Function.update m (4 * ((x.length + 2) / 3)) 0) (q := 0) hc
    rwa [Nat.zero_add] at hget
  · rw [store_above (by omega), Function.update_self]
  · intro i hi
    rw [store_above (by omega), Function.update_of_ne (Nat.ne_of_gt hi)]
  · by_cases hne : x = []
    · subst hne
      exact ⟨m₂, rfl, fun i c hc => nomatch hc⟩
    · refine ⟨_, decodeBase64_eq hne hsize m₂, ?_⟩
      intro i c hc
      have hin : (x ++ List.replicate (padding x.length) 0)[i]? = some c := by
        rw [List.getElem?_append_left (List.getElem?_eq_some_iff.mp hc).1]
        exact hc
      have hget := store_get (m := Function.update m₂ (3 * ((x.length + 2) / 3)) 0) (q := 0) hin
      rwa [Nat.zero_add] at hget

theorem base64_two : ∃ m', decodeBase64 (rfc4648 [102, 111]) (fun _ => 0)
    (rfc4648 [102, 111]).length = some (2, m') ∧ m' 0 = 102 ∧ m' 1 = 111 := by
  obtain ⟨-, -, -, m', hm', hget⟩ := base64 [102, 111] (by decide) (fun _ => 0) (fun _ => 0)
  exact ⟨m', hm', hget 0 102 rfl, hget 1 111 rfl⟩

/-- for the empty string no NUL is written -/
theorem base64_empty : ¬ ∃ m', encodeBase64 [] (fun _ => 1) 0 = some (0, m') ∧ m' 0 = 0 := by
  rintro ⟨m', hm', hnul⟩
  have hsame : (fun _ => 1 : Memory) = m' := congrArg Prod.snd (Option.some.inj hm')
  rw [← hsame] at hnul
  exact absurd hnul (by decide)

/-! ## the proxy checks -/

theorem proxy_digit : ∀ n < 64, CheckFsm.base64_to_char (UInt8.ofNat n) = digit n := by
  decide +kernel

theorem proxy_eq {value : UInt8} {n : Nat} (h : value.toNat = n % 64) :
    CheckFsm.base64_to_char value = digit n := by
  have hv := proxy_digit (n % 64) (Nat.mod_lt n (by decide))
  rw [← h, UInt8.ofNat_toNat, h] at hv
  rw [hv]
  unfold digit
  rw [Nat.mod_mod]

/-- the encoding in the answers to a proxy is the one of the standard -/
theorem proxy_encodeBase64 (l : Bytes) : CheckFsm.encodeBase64 l = rfc4648 l := by
  induction l using rfc4648.induct with
  | case1 => rfl
  | case2 x =>
    have hx := x.toNat_lt
    rw [CheckFsm.encodeBase64, rfc4648, proxy_eq (n := x.toNat * 65536 / 262144),
      proxy_eq (n := x.toNat * 65536 / 4096)]
    · rw [high_second]
      omega
    · rw [value_first]
      omega
  | case3 x y =>
    have hx := x.toNat_lt
    have hy := y.toNat_lt
    rw [CheckFsm.encodeBase64, rfc4648, proxy_eq (n := (x.toNat * 65536 + y.toNat * 256) / 262144),
      proxy_eq (n := (x.toNat * 65536 + y.toNat * 256) / 4096),
      proxy_eq (n := (x.toNat * 65536 + y.toNat * 256) / 64)]
    · rw [high_third]
      omega
    · rw [value_second]
      omega
    · rw [value_first]
      omega
  | case4 x y z l ih =>
    have hx := x.toNat_lt
    have hy := y.toNat_lt
    have hz := z.toNat_lt
    rw [CheckFsm.encodeBase64, rfc4648, ih,
      proxy_eq (n := (x.toNat * 65536 + y.toNat * 256 + z.toNat) / 262144),
      proxy_eq (n := (x.toNat * 65536 + y.toNat * 256 + z.toNat) / 4096),
      proxy_eq (n := (x.toNat * 65536 + y.toNat * 256 + z.toNat) / 64),
      proxy_eq (n := x.toNat * 65536 + y.toNat * 256 + z.toNat)]
    · rw [value_fourth]
      omega
    · rw [value_third]
      omega
    · rw [value_second]
      omega
    · rw [value_first]
      omega

end Base64
