import LearnDiary.Base.Bytes
import LearnDiary.Lib.Absorb

/-!
# MD5 of a whole message

The digest as a function of the message: padding to whole blocks of 64 bytes, a chain of four
words, 64 operations a block.  Words are stored low-order byte first.
-/

/-- the `i`-th word of a piece of memory, low-order byte first -/
def word32 (m : Bytes) (i : Nat) : UInt32 :=
  (m.getD (4 * i) 0).toUInt32 ||| (m.getD (4 * i + 1) 0).toUInt32 <<< 8 |||
    (m.getD (4 * i + 2) 0).toUInt32 <<< 16 ||| (m.getD (4 * i + 3) 0).toUInt32 <<< 24

/-- the bytes of a word, low-order byte first -/
def bytes32 (w : UInt32) : Bytes :=
  [w.toUInt8, (w >>> 8).toUInt8, (w >>> 16).toUInt8, (w >>> 24).toUInt8]

namespace Digest
open Absorb

structure Chain where
  a : UInt32
  b : UInt32
  c : UInt32
  d : UInt32
deriving DecidableEq

def initial : Chain := ⟨0x67452301, 0xefcdab89, 0x98badcfe, 0x10325476⟩

/-- `⌊2^32 |sin (i + 1)|⌋` -/
def sines : List UInt32 :=
  [0xd76aa478, 0xe8c7b756, 0x242070db, 0xc1bdceee, 0xf57c0faf, 0x4787c62a, 0xa8304613, 0xfd469501,
   0x698098d8, 0x8b44f7af, 0xffff5bb1, 0x895cd7be, 0x6b901122, 0xfd987193, 0xa679438e, 0x49b40821,
   0xf61e2562, 0xc040b340, 0x265e5a51, 0xe9b6c7aa, 0xd62f105d, 0x02441453, 0xd8a1e681, 0xe7d3fbc8,
   0x21e1cde6, 0xc33707d6, 0xf4d50d87, 0x455a14ed, 0xa9e3e905, 0xfcefa3f8, 0x676f02d9, 0x8d2a4c8a,
   0xfffa3942, 0x8771f681, 0x6d9d6122, 0xfde5380c, 0xa4beea44, 0x4bdecfa9, 0xf6bb4b60, 0xbebfbc70,
   0x289b7ec6, 0xeaa127fa, 0xd4ef3085, 0x04881d05, 0xd9d4d039, 0xe6db99e5, 0x1fa27cf8, 0xc4ac5665,
   0xf4292244, 0x432aff97, 0xab9423a7, 0xfc93a039, 0x655b59c3, 0x8f0ccc92, 0xffeff47d, 0x85845dd1,
   0x6fa87e4f, 0xfe2ce6e0, 0xa3014314, 0x4e0811a1, 0xf7537e82, 0xbd3af235, 0x2ad7d2bb, 0xeb86d391]

/-- the four rounds, of 16 operations each -/
inductive Round where
  | select
  | majority
  | parity
  | last
deriving DecidableEq

def roundOf (i : Nat) : Round :=
  if i < 16 then .select else if i < 32 then .majority else if i < 48 then .parity else .last

def Round.mix (b c d : UInt32) : Round → UInt32
  | .select => (b &&& c) ||| (~~~b &&& d)
  | .majority => (b &&& d) ||| (c &&& ~~~d)
  | .parity => b ^^^ c ^^^ d
  | .last => c ^^^ (b ||| ~~~d)

def Round.index (i : Nat) : Round → Nat
  | .select => i % 16
  | .majority => (5 * i + 1) % 16
  | .parity => (3 * i + 5) % 16
  | .last => 7 * i % 16

def Round.shift (i : Nat) : Round → UInt32
  | .select => [7, 12, 17, 22].getD (i % 4) 0
  | .majority => [5, 9, 14, 20].getD (i % 4) 0
  | .parity => [4, 11, 16, 23].getD (i % 4) 0
  | .last => [6, 10, 15, 21].getD (i % 4) 0

def rotl (x s : UInt32) : UInt32 := x <<< s ||| x >>> (32 - s)

def operation (x : Nat → UInt32) (s : Chain) (i : Nat) : Chain :=
  let r := roundOf i
  ⟨s.d, s.b + rotl (s.a + r.mix s.b s.c s.d + x (r.index i) + sines.getD i 0) (r.shift i), s.b, s.c⟩

def compress (s : Chain) (block : Bytes) : Chain :=
  let t := (List.range 64).foldl (operation (word32 block)) s
  ⟨s.a + t.a, s.b + t.b, s.c + t.c, s.d + t.d⟩

/-- a number modulo `2^64`, low-order byte first -/
def bytes64 (n : Nat) : Bytes := (List.range 8).map fun i => (n / 256 ^ i).toUInt8

/-- one bit, then zeros, then the length in bits -/
def padding (n : Nat) : Bytes :=
  0x80 :: (List.replicate ((119 - n % 64) % 64) 0 ++ bytes64 (8 * n))

def Chain.bytes (s : Chain) : Bytes := bytes32 s.a ++ bytes32 s.b ++ bytes32 s.c ++ bytes32 s.d

def md5 (m : Bytes) : Bytes := (absorb 64 compress initial (m ++ padding m.length)).bytes

end Digest
