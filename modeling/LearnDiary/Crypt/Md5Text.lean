import LearnDiary.Base.Bytes
import Mathlib.Data.List.Basic

/-!
# The text of an MD5 signature (comm/md5.c)

A read behind the end of a string, and the difference of two pointers of which one is `NULL`, have no
outcome.

* `sigToString_eq`  two digits for each byte, with no NUL behind 32 of them;
* `sigText_iff`     `MD5_sig_from_string` is its inverse.
-/

namespace Md5

/-! ## the code -/

def MD5_SIZE : Nat := 16

/-- `HEX_STRING` -/
def hexString : Bytes := ascii "0123456789abcdef"

def pairOf (sig_p : UInt8) : Bytes :=
  [hexString.getD (sig_p.toNat / 16) 0, hexString.getD (sig_p.toNat % 16) 0]

/-- the loop of `MD5_sig_to_string`, with what is in front of `str_p` -/
def sigLoop (str : Bytes) : Bytes → Bytes
  | [] => str
  | sig_p :: signature =>
    if 2 * MD5_SIZE ≤ str.length + 1 then str else sigLoop (str ++ pairOf sig_p) signature

/-- `MD5_sig_to_string` -/
def md5SigToString (signature : Bytes) : Bytes :=
  let str := sigLoop [] (signature.take MD5_SIZE)
  if str.length < 2 * MD5_SIZE then str ++ [0] else str

/-- `strchr(hex, c) - hex`; the NUL behind the digits is found too -/
def strchrHex (c : UInt8) : Option Nat := (hexString ++ [0]).idxOf? c

/-- the loop of `MD5_sig_from_string`, with the rounds that are left -/
def textLoop : Nat → Bytes → Option Bytes
  | 0, _ => some []
  | n + 1, c :: d :: str =>
    (strchrHex c).bind fun high => (strchrHex d).bind fun low =>
      (textLoop n str).map (UInt8.ofNat (high * 16 + low) :: ·)
  | _ + 1, _ => none

/-- `MD5_sig_from_string` -/
def md5SigFromString (str : Bytes) : Option Bytes := textLoop MD5_SIZE str

/-! ## one byte -/

theorem strchr_getD : ∀ n < 16, strchrHex (hexString.getD n 0) = some n := by
  decide

theorem getD_strchr : ∀ c ∈ hexString, ∃ n < 16, strchrHex c = some n ∧ hexString.getD n 0 = c := by
  decide +kernel

theorem pairOf_ofNat {high low : Nat} (hh : high < 16) (hl : low < 16) :
    pairOf (UInt8.ofNat (high * 16 + low)) = [hexString.getD high 0, hexString.getD low 0] := by
  have hn : (UInt8.ofNat (high * 16 + low)).toNat = high * 16 + low :=
    UInt8.toNat_ofNat_of_lt' (by show _ < 256; omega)
  rw [pairOf, hn, show (high * 16 + low) / 16 = high by omega,
    show (high * 16 + low) % 16 = low by omega]

/-! ## the loops -/

theorem length_flatMap_pairOf (signature : Bytes) :
    (signature.flatMap pairOf).length = 2 * signature.length := by
  induction signature with
  | nil => rfl
  | cons sig_p signature ih =>
    rw [List.flatMap_cons, List.length_append, ih, List.length_cons]
    show 2 + _ = _
    omega

theorem sigLoop_eq {str signature : Bytes} (h : str.length + 2 * signature.length ≤ 2 * MD5_SIZE) :
    sigLoop str signature = str ++ signature.flatMap pairOf := by
  induction signature generalizing str with
  | nil => exact (List.append_nil _).symm
  | cons sig_p signature ih =>
    rw [List.length_cons] at h
    have hlen : (str ++ pairOf sig_p).length = str.length + 2 := List.length_append
    rw [sigLoop, if_neg (by omega), ih (by omega), List.append_assoc, List.flatMap_cons]

theorem sigToString_eq {signature : Bytes} (h : signature.length = MD5_SIZE) :
    md5SigToString signature = signature.flatMap pairOf := by
  have hloop : sigLoop [] (signature.take MD5_SIZE) = signature.flatMap pairOf := by
    rw [List.take_of_length_le (Nat.le_of_eq h), sigLoop_eq (by rw [h]; decide), List.nil_append]
  unfold md5SigToString
  rw [hloop]
  exact if_neg (by rw [length_flatMap_pairOf, h]; decide)

theorem textLoop_flatMap (signature : Bytes) :
    textLoop signature.length (signature.flatMap pairOf) = some signature := by
  induction signature with
  | nil => rfl
  | cons sig_p signature ih =>
    have hlt := sig_p.toNat_lt
    rw [List.flatMap_cons, List.length_cons]
    show textLoop (signature.length + 1) (_ :: _ :: signature.flatMap pairOf) = _
    rw [textLoop, strchr_getD _ (by omega), Option.bind_some, strchr_getD _ (by omega),
      Option.bind_some, ih, Option.map_some, Nat.div_add_mod', UInt8.ofNat_toNat]

theorem flatMap_textLoop {n : Nat} {str signature : Bytes} (hlen : str.length = 2 * n)
    (hhex : ∀ c ∈ str, c ∈ hexString) (h : textLoop n str = some signature) :
    signature.flatMap pairOf = str := by
  induction n generalizing str signature with
  | zero =>
    cases h
    exact (List.eq_nil_of_length_eq_zero hlen).symm
  | succ n ih =>
    match str with
    | [] => cases h
    | [_] => cases h
    | c :: d :: str =>
      obtain ⟨high, hh, hc, hcd⟩ := getD_strchr c (hhex c List.mem_cons_self)
      obtain ⟨low, hl, hd, hdd⟩ := getD_strchr d (hhex d (List.mem_cons_of_mem _ List.mem_cons_self))
      rw [textLoop, hc, Option.bind_some, hd, Option.bind_some] at h
      obtain ⟨rest, hrest, rfl⟩ := Option.map_eq_some_iff.mp h
      have htail := ih (by rw [List.length_cons, List.length_cons] at hlen; omega)
        (fun e he => hhex e (List.mem_cons_of_mem _ (List.mem_cons_of_mem _ he))) hrest
      rw [List.flatMap_cons, pairOf_ofNat hh hl, hcd, hdd, htail]
      rfl

/-- **Signatures and their texts** stand for each other: 16 bytes are written as a text of 32 digits
exactly where they are read from it. -/
theorem sigText_iff {signature str : Bytes} (hs : signature.length = MD5_SIZE)
    (hlen : str.length = 2 * MD5_SIZE) (hhex : ∀ c ∈ str, c ∈ hexString) :
    md5SigToString signature = str ↔ md5SigFromString str = some signature := by
  rw [sigToString_eq hs]
  constructor
  · rintro rfl
    rw [md5SigFromString, ← hs]
    exact textLoop_flatMap signature
  · exact flatMap_textLoop hlen hhex

theorem sigText_iff_ab :
    md5SigFromString (ascii "abababababababababababababababab") = some (List.replicate 16 171) :=
  (sigText_iff (by decide) (by decide) (by decide +kernel)).mp (by decide)

end Md5
