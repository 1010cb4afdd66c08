import LearnDiary.Comm.StringCast
import LearnDiary.Socket.Inet6

/-!
# `inet_pton` and `inet_ntop` for Windows (comm/socket/unix_socket.cc)

A string is its bytes with the NUL, from the cursor on; a read behind the NUL, a write outside of a
local array or of `dst` and a count that is no `int` have no outcome.  A result `some none` is the
return value 0.  An address is read and printed as eight words in network order.

* `pton4_ntop4`     every IPv4 address is read back;
* `pton6_words`, `pton6_compress`, `pton6_v4`, `pton6_mapped`   the forms of an IPv6 address;
* `twice_none`      a text with two `::` is not read.
-/

namespace InetText
open Nat64 (In6Addr memcpy)
open Dns (InAddr)

/-! ## `socket_inet_pton4` -/

/-- the loop: the bytes of `tmp` before `*tp`, and `*tp` -/
def pton4Loop : Bytes → Bytes → UInt8 → Nat → Bool → Option (Option Bytes)
  | [], before, tp, octets, _ =>
    if octets < 4 then some none
    -- `memcpy(dst, tmp, 4)`
    else if before.length + 1 = 4 then some (some (before ++ [tp]))
    else none
  | ch :: src, before, tp, octets, saw_digit =>
    if 48 ≤ ch ∧ ch ≤ 57 then
      let newNum := tp.toNat * 10 + (ch.toNat - 48)
      if newNum > 255 then some none
      else if saw_digit then pton4Loop src before (UInt8.ofNat newNum) octets true
      else if octets + 1 > 4 then some none
      else pton4Loop src before (UInt8.ofNat newNum) (octets + 1) true
    else if ch = 46 ∧ saw_digit then
      if octets = 4 then some none
      else if before.length + 1 < 4 then pton4Loop src (before ++ [tp]) 0 octets false
      else none
    else some none

def pton4 (src : Bytes) : Option (Option Bytes) := pton4Loop (cstr src) [] 0 0 false

/-! ## `socket_inet_pton6` -/

/-- the length of `0x` -/
def skip0x : Bytes → Nat
  | 48 :: x :: _ => if x = 120 ∨ x = 88 then 2 else 0
  | _ => 0

/-- `%hx%n`: the number, and how much is read -/
def scanHx (s : Bytes) : Option (Nat × Nat) :=
  let spaces := (s.takeWhile isspace).length
  let (neg, sign) := StringCast.signAt (s.drop spaces)
  let rest := s.drop (spaces + sign)
  let skip := skip0x rest
  let number := (rest.drop skip).takeWhile Inet6.isHex
  if number = [] then none
  else
    let value := UInt16.ofNat (digits 16 number 0)
    some ((if neg then -value else value).toNat, spaces + sign + skip + number.length)

theorem scanHx_pos {s : Bytes} {w n : Nat} (h : scanHx s = some (w, n)) : 0 < n := by
  unfold scanHx at h
  dsimp only at h
  split at h
  · cases h
  · rename_i hne
    have hpos := List.length_pos_iff.mpr hne
    rw [Option.some.injEq, Prod.mk.injEq] at h
    omega

/-- `*addr_cursor = htons(word)`, the cursor as an index -/
def storeWord (an_addr : Bytes) (addr_cursor : Int) (word : Nat) : Option Bytes :=
  if 0 ≤ addr_cursor ∧ addr_cursor < 8 then
    some (memcpy an_addr (2 * addr_cursor.toNat) (Inet6.wordBytes word))
  else none

structure Local where
  an_addr : Bytes
  addr_cursor : Int
  seencompressed : Bool

/-- `an_addr` after the `memset` -/
def Local.new : Local := ⟨List.replicate 16 0, 0, false⟩

/-- the cursor behind `::`, with the text that is left -/
def skipRun (v : Local) (readcursor : Bytes) : Local :=
  if cstr readcursor = [] then { v with addr_cursor := 8 }
  else { v with
    addr_cursor := 8 - (((cstr readcursor).count 58 : Nat) + 1 : Int)
    seencompressed := true }

/-- the loop for an address without an IPv4 address at its end, and the check behind it -/
def pton6Loop (readcursor : Bytes) (v : Local) : Option (Option Bytes) :=
  match readcursor with
  | [] => none
  | c :: t =>
    if c = 0 ∨ ¬ v.addr_cursor < 8 then
      if c ≠ 0 ∨ v.addr_cursor < 8 then some none else some (some v.an_addr)
    else if c = 58 then
      match t with
      | [] => none
      | c' :: u =>
        if c' = 58 then
          if v.seencompressed then some none
          -- `coloncount` is an `int`
          else if u = [] ∨ 2 ^ 31 ≤ (cstr u).count 58 + 1 then none
          else pton6Loop u (skipRun v u)
        else pton6Loop (c' :: u) v
    else
      match _h : scanHx (cstr (c :: t)) with
      | none => some none
      | some (word, bytesread) =>
        -- and so is `bytesread`
        if 2 ^ 31 ≤ bytesread then none
        else (storeWord v.an_addr v.addr_cursor word).bind fun an_addr =>
          let rest := (c :: t).drop bytesread
          match rest.head? with
          | none => none
          | some d =>
            if d ≠ 58 ∧ d ≠ 0 then some none
            else pton6Loop ((c :: t).drop bytesread)
              { v with an_addr := an_addr, addr_cursor := v.addr_cursor + 1 }
termination_by readcursor.length
decreasing_by
  · simp only [List.length_cons]
    omega
  · simp only [List.length_cons]
    omega
  · have := scanHx_pos _h
    rw [List.length_drop, List.length_cons]
    omega

/-- an address that starts with `::` and has a dot in it -/
def pton6Dotted (addrstart : Bytes) : Option (Option Bytes) :=
  match addrstart.dropWhile (· ≠ 58) with
  | [] => (pton4 addrstart).map fun v4 => v4.map fun v4 => memcpy (List.replicate 16 0) 12 v4
  | _ :: colon =>
    if (scanHx addrstart).any (2 ^ 31 ≤ ·.2) then none
    else if scanHx addrstart = some (65535, 4) then
      (pton4 colon).map fun v4 =>
        v4.map fun v4 => memcpy (memcpy (List.replicate 16 0) 10 [255, 255]) 12 v4
    else some none

/-- `socket_inet_pton6`: what it returns for a string, and the bytes it writes to `dst` -/
def pton6 (src : Bytes) : Option (Option Bytes) :=
  if 120 ∈ src then some none
  else
    match src with
    | 58 :: 58 :: addrstart =>
      if addrstart ≠ [] ∧ 46 ∈ addrstart then pton6Dotted addrstart
      else pton6Loop (src ++ [0]) .new
    | _ => pton6Loop (src ++ [0]) .new

/-! ## `inet_ntop_v4` and `inet_ntop_v6` -/

def octetText (n : Nat) : Bytes :=
  let (hundreds, n, non_zerop) := if n / 100 > 0 then ([n / 100], n % 100, true) else ([], n, false)
  let (tens, n) := if non_zerop || n / 10 > 0 then ([n / 10], n % 10) else ([], n)
  (hundreds ++ tens ++ [n]).map fun d => UInt8.ofNat (48 + d)

/-- the text of `inet_ntop_v4`, without its NUL -/
def v4Text (x : InAddr) : Bytes := [46].intercalate (x.octets.map fun n => octetText n.toNat)

/-- `dst` and the cursor in it -/
structure Dst where
  dst : Bytes
  cursor : Nat

/-- `*cursor++ = c` -/
def Dst.put (d : Dst) (c : UInt8) : Option Dst :=
  if d.cursor < d.dst.length then some ⟨memcpy d.dst d.cursor [c], d.cursor + 1⟩ else none

/-- `cursor += snprintf(cursor, room, ..)` of a text -/
def Dst.print (d : Dst) (room : Nat) (text : Bytes) : Option Dst :=
  let out := if room = 0 then [] else text.take (room - 1) ++ [0]
  if d.cursor + out.length ≤ d.dst.length then
    some ⟨memcpy d.dst d.cursor out, d.cursor + text.length⟩
  else none

/-- what `inet_ntop_v4` writes at the cursor, where it has `size` bytes; nothing when it returns NULL -/
def Dst.v4 (d : Dst) (size : Nat) (x : InAddr) : Option Bytes :=
  if size < 16 then some d.dst
  else if d.cursor + (v4Text x).length + 1 ≤ d.dst.length then
    some (memcpy d.dst d.cursor (v4Text x ++ [0]))
  else none

/-- `inet_ntop_v4(src, dst, size)`: the buffer it leaves, unless it returns NULL -/
def ntop4 (x : InAddr) (dst : Bytes) : Option Bytes :=
  if dst.length < 16 then none else Dst.v4 ⟨dst, 0⟩ dst.length x

/-- `runpos`, `current`, `max` and `maxpos` -/
structure Marks where
  runpos : List Int
  current : Int
  max : Int
  maxpos : Int

/-- `as_shorts[i] == 0` -/
def zeros (as_shorts : List Nat) : List Bool := as_shorts.map (· == 0)

/-- one round of the first loop: word `i` is zero or not -/
def markStep (m : Marks) (i : Nat) (zero : Bool) : Marks :=
  if zero then
    let m := if m.current > m.max then { m with maxpos := i, max := m.current } else m
    { m with runpos := m.runpos ++ [m.current], current := m.current + 1 }
  else { m with runpos := m.runpos ++ [-1], current := 1 }

def markLoop (zeros : List Bool) : Marks :=
  zeros.zipIdx.foldl (fun m z => markStep m z.2 z.1) ⟨[], 1, 1, -1⟩

/-- one round of the second loop -/
def clearStep (s : List Int × Int) (i : Nat) : List Int × Int :=
  if (i : Int) > s.2 then (s.1.set i (-1), s.2)
  else if s.1.getD i 0 = -1 then (s.1, -1)
  else s

def marks (zeros : List Bool) : Marks :=
  let m := markLoop zeros
  if m.max > 1 then
    { m with runpos := ((List.range 8).reverse.foldl clearStep (m.runpos, m.maxpos)).1 }
  else m

/-- the test for an IPv4 address at the end -/
def embeds (m : Marks) (as_shorts : List Nat) : Prop :=
  m.runpos.getD 0 0 = 1 ∧ (m.maxpos = 5 ∨ m.maxpos = 4 ∧ as_shorts.getD 5 0 = 65535)
deriving Decidable

inductive Op where
  | colon
  | word (i : Nat)
deriving DecidableEq

/-- the last loop from `i` on, `n` rounds of it at most -/
def printOps (m : Marks) : Nat → Nat → List Op
  | 0, _ => []
  | n + 1, i =>
    if 8 ≤ i then []
    else if m.runpos.getD i 0 = -1 then
      .word i :: ((if i ≠ 7 ∧ m.runpos.getD (i + 1) 0 ≠ 1 then [.colon] else []) ++
        printOps m n (i + 1))
    else if m.runpos.getD i 0 = 1 then .colon :: .colon :: printOps m n (i + m.max.toNat)
    else printOps m n (i + 1)

section
variable (INET6_ADDRSTRLEN : Nat)

def Dst.exec (as_shorts : List Nat) (d : Dst) : Op → Option Dst
  | .colon => d.put 58
  | .word i => d.print (INET6_ADDRSTRLEN - d.cursor) (printNat 16 (as_shorts.getD i 0))

/-- the branch for an IPv4 address at the end -/
def Dst.embedded (as_shorts : List Nat) (maxpos : Int) (d : Dst) : Option Bytes :=
  (d.put 58).bind fun d => (d.put 58).bind fun d =>
    (if maxpos = 4 then d.print (INET6_ADDRSTRLEN - 2) (ascii "ffff:") else some d).bind fun d =>
      d.v4 (INET6_ADDRSTRLEN - d.cursor) (Inet6.v4Of as_shorts)

/-- `inet_ntop_v6(src, dst, size)`: the buffer it leaves, unless it returns NULL -/
def ntop6 (x : In6Addr) (dst : Bytes) : Option Bytes :=
  if dst.length < INET6_ADDRSTRLEN then none
  else
    let as_shorts := Inet6.words x.s6_addr
    let m := marks (zeros as_shorts)
    if embeds m as_shorts then Dst.embedded INET6_ADDRSTRLEN as_shorts m.maxpos ⟨dst, 0⟩
    else ((printOps m 8 0).foldlM (Dst.exec INET6_ADDRSTRLEN as_shorts) ⟨dst, 0⟩).map Dst.dst

end

/-! ## reading an IPv4 address -/

section
variable {src before t : Bytes} {tp : UInt8} {octets : Nat}

theorem octetText_eq (n : UInt8) : octetText n.toNat = printNat 10 n.toNat := by
  have hall : ∀ n < 256, octetText n = printNat 10 n := by decide +kernel
  exact hall _ n.toNat_lt

theorem v4Text_eq (x : InAddr) : v4Text x = x.socket_inet_ntop := by
  unfold v4Text InAddr.socket_inet_ntop
  simp only [octetText_eq]

theorem pton4_digit {c : UInt8} {saw_digit : Bool} (h1 : 48 ≤ c) (h2 : c ≤ 57)
    (hnum : tp.toNat * 10 + (c.toNat - 48) ≤ 255) (ho : saw_digit = true ∨ octets < 4) :
    pton4Loop (c :: src) before tp octets saw_digit =
      pton4Loop src before (UInt8.ofNat (tp.toNat * 10 + (c.toNat - 48)))
        (if saw_digit then octets else octets + 1) true := by
  rw [pton4Loop, if_pos ⟨h1, h2⟩]
  dsimp only
  rw [if_neg (by omega)]
  cases saw_digit with
  | true => rfl
  | false =>
    have : octets < 4 := ho.resolve_left Bool.false_ne_true
    show (if octets + 1 > 4 then some none else _) = _
    rw [if_neg (by omega)]
    rfl

theorem digits_cons {c : UInt8} (h1 : 48 ≤ c) (h2 : c ≤ 57) (acc : Nat) :
    digits 10 (c :: t) acc = digits 10 t (acc * 10 + (c.toNat - 48)) := by
  have hlt : c.toNat - 48 < 10 := by
    have := UInt8.le_iff_toNat_le.mp h2
    have : (57 : UInt8).toNat = 57 := rfl
    omega
  rw [digits, Inet6.digitVal_figure h1 h2]
  dsimp only
  rw [if_pos hlt]

theorem pton4_digits (h : ∀ c ∈ t, 48 ≤ c ∧ c ≤ 57) (hnum : digits 10 t tp.toNat ≤ 255) :
    pton4Loop (t ++ src) before tp octets true =
      pton4Loop src before (UInt8.ofNat (digits 10 t tp.toNat)) octets true := by
  induction t generalizing tp with
  | nil => rw [digits, UInt8.ofNat_toNat, List.nil_append]
  | cons c t ih =>
    rw [List.forall_mem_cons] at h
    rw [digits_cons h.1.1 h.1.2] at hnum ⊢
    have hstep : tp.toNat * 10 + (c.toNat - 48) ≤ 255 := by
      have hle := Inet6.le_digits h.2 (tp.toNat * 10 + (c.toNat - 48))
      have hpow : 1 ≤ 10 ^ t.length := Nat.one_le_pow _ _ (by decide)
      have := Nat.mul_le_mul_left (tp.toNat * 10 + (c.toNat - 48)) hpow
      omega
    have hbyte : (UInt8.ofNat (tp.toNat * 10 + (c.toNat - 48))).toNat =
        tp.toNat * 10 + (c.toNat - 48) := by
      rw [UInt8.toNat_ofNat', Nat.mod_eq_of_lt (by omega)]
    rw [List.cons_append, pton4_digit h.1.1 h.1.2 hstep (Or.inl rfl), if_pos rfl,
      ih h.2 (by rwa [hbyte]), hbyte]

theorem pton4_octet (n : UInt8) (ho : octets < 4) :
    pton4Loop (printNat 10 n.toNat ++ src) before 0 octets false =
      pton4Loop src before n (octets + 1) true := by
  obtain ⟨c, t, ht⟩ := List.exists_cons_of_ne_nil (printNat_ne_nil 10 n.toNat)
  have hval : digits 10 (printNat 10 n.toNat) 0 = n.toNat :=
    digits_toDigits (by decide) (by decide) (Nat.lt_succ_self _)
  have hdigit : ∀ c' ∈ printNat 10 n.toNat, 48 ≤ c' ∧ c' ≤ 57 := fun _ => Inet6.mem_decimal
  rw [ht, List.forall_mem_cons] at hdigit
  obtain ⟨⟨h1, h2⟩, hdigit⟩ := hdigit
  have hlt : c.toNat - 48 ≤ 255 := by
    have := c.toNat_lt
    omega
  have hbyte : (UInt8.ofNat (c.toNat - 48)).toNat = c.toNat - 48 := by
    rw [UInt8.toNat_ofNat', Nat.mod_eq_of_lt (by omega)]
  rw [ht, digits_cons h1 h2, Nat.zero_mul, Nat.zero_add] at hval
  have hn := n.toNat_lt
  have h0 : (0 : UInt8).toNat * 10 + (c.toNat - 48) = c.toNat - 48 := by
    rw [UInt8.toNat_zero, Nat.zero_mul, Nat.zero_add]
  rw [ht, List.cons_append, pton4_digit h1 h2 (by rw [h0]; exact hlt) (Or.inr ho), h0,
    if_neg Bool.false_ne_true, pton4_digits hdigit (by rw [hbyte, hval]; omega), hbyte, hval,
    UInt8.ofNat_toNat]

theorem pton4_dot (ho : octets ≠ 4) (hb : before.length + 1 < 4) :
    pton4Loop (46 :: src) before tp octets true = pton4Loop src (before ++ [tp]) 0 octets false := by
  rw [pton4Loop, if_neg (by decide), if_pos ⟨rfl, rfl⟩, if_neg ho, if_pos hb]

theorem mem_v4Text {x : InAddr} {c : UInt8} (h : c ∈ v4Text x) : (48 ≤ c ∧ c ≤ 57) ∨ c = 46 := by
  rw [v4Text_eq] at h
  rcases Inet6.mem_v4Text h with h | ⟨d, hd, rfl⟩
  · exact Or.inr h
  · left
    interval_cases d <;> decide

theorem v4Text_free {x : InAddr} {c : UInt8} (h1 : c ≠ 46) (h2 : c < 48 ∨ 57 < c) : c ∉ v4Text x := by
  intro h
  rcases mem_v4Text h with h | h
  · rcases h2 with h2 | h2
    · exact absurd h.1 (UInt8.not_le.mpr h2)
    · exact absurd h.2 (UInt8.not_le.mpr h2)
  · exact h1 h

theorem v4Text_nonzero (x : InAddr) : ∀ c ∈ v4Text x, notNul c = true := by
  intro c hc
  have : c ≠ 0 := by
    rintro rfl
    exact v4Text_free (by decide) (by decide) hc
  simpa [notNul] using this

/-- **Every IPv4 address is read back.** -/
theorem pton4_ntop4 (x : InAddr) : pton4 (v4Text x) = some (some x.octets) := by
  unfold pton4
  rw [cstr, Find.upTo_eq_self notNul (v4Text_nonzero x), v4Text_eq, Inet6.v4Text_split,
    pton4_octet _ (by omega), pton4_dot (by omega) (by simp), pton4_octet _ (by omega),
    pton4_dot (by omega) (by simp), pton4_octet _ (by omega), pton4_dot (by omega) (by simp),
    ← List.append_nil (printNat 10 x.d.toNat), pton4_octet _ (by omega)]
  rfl

end

/-! ## reading words -/

section
variable {buf s t rest : Bytes} {off w p : Nat} {ws : List Nat} {seencompressed : Bool} {v : Local}

theorem memcpy_memcpy (h : off + s.length ≤ buf.length) :
    memcpy (memcpy buf off s) (off + s.length) t = memcpy buf off (s ++ t) := by
  have hlen : (buf.take off ++ s).length = off + s.length := by
    rw [List.length_append, List.length_take, Nat.min_eq_left (by omega)]
  have htake : (memcpy buf off s).take (off + s.length) = buf.take off ++ s := by
    unfold memcpy
    rw [← hlen, List.take_left]
  have hdrop : (memcpy buf off s).drop (off + s.length + t.length) =
      buf.drop (off + (s ++ t).length) := by
    unfold memcpy
    rw [← List.drop_drop, ← hlen, List.drop_left, hlen, List.drop_drop, List.length_append,
      Nat.add_assoc]
  rw [memcpy, htake, hdrop]
  unfold memcpy
  simp only [List.append_assoc]

theorem cstr_append (h : ∀ c ∈ t, notNul c = true) : cstr (t ++ rest) = t ++ cstr rest :=
  List.takeWhile_append_of_pos h

theorem mem_word {c : UInt8} (h : c ∈ printNat 16 w) : Inet6.isHex c = true ∧ isspace c = false ∧
    notNul c = true ∧ c ∉ ([45, 43, 120, 88, 13, 10, 32, 58] : Bytes) := by
  obtain ⟨d, hd, rfl⟩ := printNat_mem (by decide) h
  exact ⟨Inet6.isHex_digitChar hd, digitChar_ne hd⟩

theorem scanHx_word (hw : w < 65536) (hs : ∀ c ∈ s.head?, c = 58) :
    scanHx (printNat 16 w ++ s) = some (w, (printNat 16 w).length) := by
  obtain ⟨c, t, ht⟩ := List.exists_cons_of_ne_nil (printNat_ne_nil 16 w)
  obtain ⟨-, hspace, -, hne⟩ := mem_word (w := w) (c := c) (by rw [ht]; exact List.mem_cons_self)
  have hnumber : (printNat 16 w ++ s).takeWhile Inet6.isHex = printNat 16 w := by
    rw [List.takeWhile_append_of_pos fun c hc => (mem_word hc).1]
    cases s with
    | nil => rw [List.takeWhile_nil, List.append_nil]
    | cons d s =>
      rw [hs d rfl, List.takeWhile_cons_of_neg (by decide), List.append_nil]
  have hspaces : (printNat 16 w ++ s).takeWhile isspace = [] := by
    rw [ht, List.cons_append, List.takeWhile_cons_of_neg (by simp [hspace])]
  have hsign : StringCast.signAt (printNat 16 w ++ s) = (false, 0) := by
    rw [ht, List.cons_append, StringCast.signAt]
    · intro l hl
      cases hl
      simp at hne
    · intro l hl
      cases hl
      simp at hne
  have hskip : skip0x (printNat 16 w ++ s) = 0 := by
    unfold skip0x
    split
    · rename_i x l hl
      have hx : x = 58 ∨ x ∈ printNat 16 w := by
        rw [ht, List.cons_append, List.cons.injEq] at hl
        rw [ht]
        cases t with
        | nil => exact Or.inl (hs x (by rw [← List.nil_append s, hl.2]; rfl))
        | cons d t =>
          rw [List.cons_append, List.cons.injEq] at hl
          rw [hl.2.1]
          simp
      rw [if_neg]
      rcases hx with rfl | hx
      · decide
      · have := (mem_word hx).2.2.2
        rintro (rfl | rfl) <;> simp at this
    · rfl
  unfold scanHx
  dsimp only
  rw [hspaces, List.length_nil, List.drop_zero, hsign]
  dsimp only
  rw [Nat.add_zero, List.drop_zero, hskip, List.drop_zero, hnumber,
    if_neg (printNat_ne_nil 16 w), if_neg Bool.false_ne_true, Nat.zero_add]
  have hval : digits 16 (printNat 16 w) 0 = w :=
    digits_toDigits (by decide) (by decide) (Nat.lt_succ_self w)
  rw [hval, UInt16.toNat_ofNat', Nat.mod_eq_of_lt hw]

theorem loop_other {c : UInt8} (hgo : ¬ (c = 0 ∨ ¬ v.addr_cursor < 8)) (hc : c ≠ 58) :
    pton6Loop (c :: t) v =
      match scanHx (cstr (c :: t)) with
      | none => some none
      | some (word, bytesread) =>
        if 2 ^ 31 ≤ bytesread then none
        else (storeWord v.an_addr v.addr_cursor word).bind fun an_addr =>
          match ((c :: t).drop bytesread).head? with
          | none => none
          | some d =>
            if d ≠ 58 ∧ d ≠ 0 then some none
            else pton6Loop ((c :: t).drop bytesread)
              { v with an_addr := an_addr, addr_cursor := v.addr_cursor + 1 } := by
  rw [pton6Loop.eq_def]
  dsimp only
  rw [if_neg hgo, if_neg hc]
  split
  · rename_i hscan
    rw [hscan]
  · rename_i hscan
    rw [hscan]

theorem loop_word (hw : w < 65536) (hrest : rest.head? = some 58 ∨ rest.head? = some 0)
    (hv : v.addr_cursor < 8) : pton6Loop (printNat 16 w ++ rest) v =
      (storeWord v.an_addr v.addr_cursor w).bind fun an_addr =>
        pton6Loop rest { v with an_addr := an_addr, addr_cursor := v.addr_cursor + 1 } := by
  obtain ⟨c, t, ht⟩ := List.exists_cons_of_ne_nil (printNat_ne_nil 16 w)
  obtain ⟨-, -, hnul, hne⟩ := mem_word (w := w) (c := c) (by rw [ht]; exact List.mem_cons_self)
  have hscan : scanHx (cstr (c :: (t ++ rest))) = some (w, (printNat 16 w).length) := by
    rw [← List.cons_append, ← ht, cstr_append fun c hc => (mem_word hc).2.2.1]
    refine scanHx_word hw fun d hd => ?_
    unfold cstr Find.upTo at hd
    cases rest with
    | nil => cases hd
    | cons d' rest =>
      rcases hrest with h | h
      · cases h
        cases hd
        rfl
      · cases h
        cases hd
  have hdrop : (c :: (t ++ rest)).drop (printNat 16 w).length = rest := by
    rw [← List.cons_append, ← ht, List.drop_left]
  have hshort : (printNat 16 w).length ≤ 4 := printNat_length (k := 3) hw
  have hgo : ¬ (c = 0 ∨ ¬ v.addr_cursor < 8) := by
    rintro (rfl | h)
    · cases hnul
    · exact h hv
  have hcolon : c ≠ 58 := by
    rintro rfl
    simp at hne
  rw [ht, List.cons_append, loop_other hgo hcolon, hscan]
  dsimp only
  rw [hdrop, if_neg (by omega)]
  congr 1
  funext an_addr
  rcases hrest with h | h
  · rw [h]
    rfl
  · rw [h]
    rfl

theorem loop_colon {c : UInt8} (hc : c ≠ 58) (hv : v.addr_cursor < 8) :
    pton6Loop (58 :: c :: t) v = pton6Loop (c :: t) v := by
  rw [pton6Loop.eq_def]
  dsimp only
  rw [if_neg (by simpa using hv), if_pos rfl, if_neg hc]

theorem loop_pair (t : Bytes) (hv : v.addr_cursor < 8) :
    pton6Loop (58 :: 58 :: t) v =
      if v.seencompressed then some none
      else if t = [] ∨ 2 ^ 31 ≤ (cstr t).count 58 + 1 then none
      else pton6Loop t (skipRun v t) := by
  rw [pton6Loop.eq_def]
  dsimp only
  rw [if_neg (by simpa using hv), if_pos rfl, if_pos rfl]

theorem loop_run (ht : t ≠ []) (hv : v.addr_cursor < 8) (hseen : v.seencompressed = false) :
    pton6Loop (58 :: 58 :: t) v =
      if 2 ^ 31 ≤ (cstr t).count 58 + 1 then none else pton6Loop t (skipRun v t) := by
  rw [loop_pair t hv, hseen, if_neg Bool.false_ne_true]
  exact if_congr (or_iff_right ht) rfl rfl

theorem words_head (rest : Bytes) (hne : ws ≠ []) :
    ∃ c u, [58].intercalate (Inet6.hex ws) ++ rest = c :: u ∧ c ≠ 58 := by
  obtain ⟨w, ws, rfl⟩ := List.exists_cons_of_ne_nil hne
  obtain ⟨c, t, ht⟩ := List.exists_cons_of_ne_nil (printNat_ne_nil 16 w)
  have hc : c ≠ 58 := by
    have := (mem_word (w := w) (c := c) (by rw [ht]; exact List.mem_cons_self)).2.2.2
    rintro rfl
    simp at this
  by_cases hn : ws = []
  · subst hn
    refine ⟨c, t ++ rest, ?_, hc⟩
    show [58].intercalate [printNat 16 w] ++ rest = _
    rw [List.intercalate_singleton, ht, List.cons_append]
  · rw [Inet6.hex_cons w hn, ht]
    exact ⟨c, _, rfl, hc⟩

theorem loop_words (hws : ∀ w ∈ ws, w < 65536) (hne : ws ≠ [])
    (hrest : rest.head? = some 58 ∨ rest.head? = some 0) (hp : p + ws.length ≤ 8)
    (hbuf : buf.length = 16) :
    pton6Loop ([58].intercalate (Inet6.hex ws) ++ rest) ⟨buf, p, seencompressed⟩ =
      pton6Loop rest
        ⟨memcpy buf (2 * p) (ws.flatMap Inet6.wordBytes), (p + ws.length : Nat), seencompressed⟩ := by
  induction ws generalizing p buf with
  | nil => exact absurd rfl hne
  | cons w ws ih =>
    rw [List.forall_mem_cons] at hws
    rw [List.length_cons] at hp
    have hstore : ∀ rest', rest'.head? = some 58 ∨ rest'.head? = some 0 →
        pton6Loop (printNat 16 w ++ rest') ⟨buf, p, seencompressed⟩ =
          pton6Loop rest' ⟨memcpy buf (2 * p) (Inet6.wordBytes w), (p + 1 : Nat), seencompressed⟩ := by
      intro rest' h
      rw [loop_word hws.1 h (by dsimp only; omega)]
      show (storeWord buf (p : Int) w).bind _ = _
      unfold storeWord
      rw [if_pos (by omega)]
      rfl
    by_cases hn : ws = []
    · subst hn
      show pton6Loop ([58].intercalate [printNat 16 w] ++ rest) _ = _
      rw [List.intercalate_singleton, hstore rest hrest, List.flatMap_singleton]
      rfl
    · have hlen : (memcpy buf (2 * p) (Inet6.wordBytes w)).length = 16 := by
        rw [Nat64.length_memcpy, hbuf]
        rw [hbuf]
        show 2 * p + 2 ≤ 16
        omega
      have hpos := List.length_pos_iff.mpr hn
      obtain ⟨c, u, hu, hc⟩ := words_head rest hn
      rw [Inet6.hex_cons _ hn, List.append_assoc, List.cons_append, hu, hstore _ (Or.inl rfl),
        loop_colon hc (by dsimp only; omega), ← hu, ih hws.2 hn (by omega) hlen]
      have hoff : 2 * (p + 1) = 2 * p + (Inet6.wordBytes w).length := by
        show _ = 2 * p + 2
        omega
      have hcur : p + 1 + ws.length = p + (w :: ws).length := by
        simp only [List.length_cons]
        omega
      rw [hoff, memcpy_memcpy (by rw [hbuf]; show 2 * p + 2 ≤ 16; omega), hcur]
      rfl

theorem loop_done {c : UInt8} (t : Bytes) (hend : c = 0 ∨ ¬ v.addr_cursor < 8) :
    pton6Loop (c :: t) v =
      if c ≠ 0 ∨ v.addr_cursor < 8 then some none else some (some v.an_addr) := by
  rw [pton6Loop.eq_def]
  exact if_pos hend

theorem loop_end : pton6Loop [0] ⟨buf, (8 : Nat), seencompressed⟩ = some (some buf) := by
  rw [loop_done [] (Or.inl rfl)]
  rfl

theorem loop_stop {c : UInt8} (hc : c ≠ 0) (hv : ¬ v.addr_cursor < 8) :
    pton6Loop (c :: t) v = some none := by
  rw [loop_done t (Or.inr hv), if_pos (Or.inl hc)]

def Digits (s : Bytes) : Prop := ∀ c ∈ s, Inet6.isHex c = true ∨ c = 58

theorem digits_words (ws : List Nat) : Digits ([58].intercalate (Inet6.hex ws)) := by
  intro c hc
  rcases Pieces.mem_intercalate hc with hc | ⟨t, ht, hc⟩
  · exact Or.inr (List.mem_singleton.mp hc)
  · obtain ⟨w, -, rfl⟩ := List.mem_map.mp ht
    exact Or.inl (mem_word hc).1

theorem Digits.nonzero (h : Digits s) : ∀ c ∈ s, notNul c = true := by
  intro c hc
  rcases h c hc with h | rfl
  · have : c ≠ 0 := by
      rintro rfl
      exact absurd h (by decide)
    simpa [notNul] using this
  · rfl

theorem Digits.append (hs : Digits s) (ht : Digits t) : Digits (s ++ t) := by
  intro c hc
  exact (List.mem_append.mp hc).elim (hs c) (ht c)

theorem digits_compress (l r : List Nat) : Digits (Inet6.compress (Inet6.hex l) (Inet6.hex r)) :=
  (digits_words l).append (Digits.append (by simp [Digits]) (digits_words r))

theorem pton6_eq_loop (h : Digits s) : pton6 s = pton6Loop (s ++ [0]) .new := by
  have hx : (120 : UInt8) ∉ s := fun hc => by
    rcases h _ hc with h | h
    · exact absurd h (by decide)
    · exact absurd h (by decide)
  have hdot : (46 : UInt8) ∉ s := fun hc => by
    rcases h _ hc with h | h
    · exact absurd h (by decide)
    · exact absurd h (by decide)
  unfold pton6
  rw [if_neg hx]
  split
  · rw [if_neg]
    rintro ⟨-, hmem⟩
    exact hdot (List.mem_cons_of_mem _ (List.mem_cons_of_mem _ hmem))
  · rfl

theorem count_words (hne : ws ≠ []) :
    ([58].intercalate (Inet6.hex ws)).count 58 + 1 = ws.length := by
  have hword : ∀ w, (printNat 16 w).count 58 = 0 := fun w =>
    List.count_eq_zero.mpr fun h => by simpa using (mem_word h).2.2.2
  induction ws with
  | nil => exact absurd rfl hne
  | cons w ws ih =>
    by_cases hn : ws = []
    · subst hn
      show ([58].intercalate [printNat 16 w]).count 58 + 1 = 1
      rw [List.intercalate_singleton, hword]
    · rw [Inet6.hex_cons w hn, List.count_append, hword, List.count_cons_self, ih hn, Nat.zero_add,
        List.length_cons]

theorem length_wordBytes (ws : List Nat) : (ws.flatMap Inet6.wordBytes).length = 2 * ws.length := by
  induction ws with
  | nil => rfl
  | cons w ws ih =>
    rw [List.flatMap_cons, List.length_append, ih, List.length_cons]
    show 2 + 2 * ws.length = _
    omega

theorem pton6_words (hws : ∀ w ∈ ws, w < 65536) (hlen : ws.length = 8) :
    pton6 ([58].intercalate (Inet6.hex ws)) = some (some (ws.flatMap Inet6.wordBytes)) := by
  have hbytes : (ws.flatMap Inet6.wordBytes).length = 16 := by rw [length_wordBytes, hlen]
  have hne : ws ≠ [] := by
    rintro rfl
    cases hlen
  rw [pton6_eq_loop (digits_words ws)]
  show pton6Loop _ ⟨List.replicate 16 0, (0 : Nat), false⟩ = _
  rw [loop_words hws hne (Or.inr rfl) (by omega) (by decide), Nat.zero_add, hlen, loop_end]
  unfold memcpy
  rw [hbytes]
  simp

theorem loop_tail {r : List Nat} (hr : ∀ w ∈ r, w < 65536) (hne : r ≠ []) (hp : p + r.length ≤ 7)
    (hbuf : buf.length = 16) :
    pton6Loop (58 :: 58 :: ([58].intercalate (Inet6.hex r) ++ [0])) ⟨buf, (p : Nat), false⟩ =
      some (some (memcpy buf (2 * (8 - r.length)) (r.flatMap Inet6.wordBytes))) := by
  have hcstr : cstr ([58].intercalate (Inet6.hex r) ++ [0]) = [58].intercalate (Inet6.hex r) := by
    rw [cstr_append (digits_words r).nonzero]
    exact List.append_nil _
  obtain ⟨c, u, hu, -⟩ := words_head [] hne
  rw [List.append_nil] at hu
  have hcount := count_words hne
  have hskip : skipRun ⟨buf, (p : Nat), false⟩ ([58].intercalate (Inet6.hex r) ++ [0]) =
      ⟨buf, (8 - r.length : Nat), true⟩ := by
    unfold skipRun
    rw [hcstr, if_neg (by rw [hu]; exact List.cons_ne_nil c u)]
    dsimp only
    congr 1
    omega
  have hpos := List.length_pos_iff.mpr hne
  rw [loop_run (by simp) (by dsimp only; omega) rfl, hcstr, if_neg (by omega), hskip,
    loop_words hr hne (Or.inr rfl) (by omega) hbuf]
  have hend : 8 - r.length + r.length = 8 := by omega
  rw [hend, loop_end]

/-- **A text with one `::` is read back**, with zeros for what is left out. -/
theorem pton6_compress {l r : List Nat} (hl : ∀ w ∈ l, w < 65536) (hr : ∀ w ∈ r, w < 65536)
    (hne : r ≠ []) (hlen : l.length + r.length ≤ 7) :
    pton6 (Inet6.compress (Inet6.hex l) (Inet6.hex r)) = some (some
      ((l ++ List.replicate (8 - (l.length + r.length)) 0 ++ r).flatMap Inet6.wordBytes)) := by
  have hzeros : ∀ n, (List.replicate n 0).flatMap Inet6.wordBytes = List.replicate (2 * n) 0 := by
    intro n
    induction n with
    | zero => rfl
    | succ n ih => rw [List.replicate_succ, List.flatMap_cons, ih]; rfl
  have hread : ∀ buf : Bytes, buf = l.flatMap Inet6.wordBytes ++
      List.replicate (2 * (8 - l.length)) 0 →
      memcpy buf (2 * (8 - r.length)) (r.flatMap Inet6.wordBytes) =
        (l ++ List.replicate (8 - (l.length + r.length)) 0 ++ r).flatMap Inet6.wordBytes := by
    rintro buf rfl
    have hsplit : 2 * (8 - l.length) = 2 * (8 - (l.length + r.length)) + 2 * r.length := by omega
    have hoff : 2 * (8 - r.length) =
        (l.flatMap Inet6.wordBytes ++ List.replicate (2 * (8 - (l.length + r.length))) 0).length := by
      rw [List.length_append, length_wordBytes, List.length_replicate]
      omega
    unfold memcpy
    rw [hsplit, List.replicate_add, ← List.append_assoc, hoff, List.take_left, ← List.drop_drop,
      List.drop_left, length_wordBytes, List.drop_eq_nil_of_le (by simp), List.append_nil, List.flatMap_append,
      List.flatMap_append, hzeros]
  rw [pton6_eq_loop (digits_compress l r)]
  unfold Inet6.compress
  simp only [List.append_assoc, List.cons_append, List.nil_append]
  show pton6Loop _ ⟨List.replicate 16 0, (0 : Nat), false⟩ = _
  by_cases hn : l = []
  · subst hn
    exact (loop_tail hr hne (by simpa using hlen) (by decide)).trans
      (congrArg (some ∘ some) (hread _ rfl))
  · rw [loop_words hl hn (Or.inl rfl) (by omega) (by decide), Nat.zero_add]
    have hbuf : memcpy (List.replicate 16 0) (2 * 0) (l.flatMap Inet6.wordBytes) =
        l.flatMap Inet6.wordBytes ++ List.replicate (2 * (8 - l.length)) 0 := by
      unfold memcpy
      rw [length_wordBytes, List.drop_replicate]
      show [] ++ _ ++ List.replicate (16 - (0 + _)) 0 = _
      rw [List.nil_append, Nat.zero_add, Nat.mul_sub]
    rw [hbuf, loop_tail hr hne hlen (by rw [List.length_append, length_wordBytes, List.length_replicate]; omega),
      hread _ rfl, List.append_assoc]

/-- where the loop cannot return 1 behind the words, it cannot in front of them -/
theorem loop_words_fail (hws : ∀ w ∈ ws, w < 65536) (hrest : rest.head? = some 58)
    (hfail : ∀ v : Local, v.seencompressed = seencompressed → ∀ b, pton6Loop rest v ≠ some (some b))
    (hv : v.seencompressed = seencompressed) (b : Bytes) :
    pton6Loop ([58].intercalate (Inet6.hex ws) ++ rest) v ≠ some (some b) := by
  have hword : ∀ (w : Nat), w < 65536 → ∀ rest' : Bytes, rest'.head? = some 58 →
      (∀ v : Local, v.seencompressed = seencompressed → pton6Loop rest' v ≠ some (some b)) →
      ∀ v : Local, v.seencompressed = seencompressed →
        pton6Loop (printNat 16 w ++ rest') v ≠ some (some b) := by
    intro w hw rest' hrest' hfail v hv
    by_cases hc : v.addr_cursor < 8
    · rw [loop_word hw (Or.inl hrest') hc]
      intro h
      obtain ⟨an_addr, -, h⟩ := Option.bind_eq_some_iff.mp h
      exact hfail { v with an_addr := an_addr, addr_cursor := v.addr_cursor + 1 } hv h
    · obtain ⟨c, t, ht⟩ := List.exists_cons_of_ne_nil (printNat_ne_nil 16 w)
      have hnul : c ≠ 0 := by
        have := (mem_word (w := w) (c := c) (by rw [ht]; exact List.mem_cons_self)).2.2.1
        simpa [notNul] using this
      rw [ht, List.cons_append, loop_stop hnul hc]
      nofun
  induction ws generalizing v with
  | nil => exact hfail v hv b
  | cons w ws ih =>
    rw [List.forall_mem_cons] at hws
    by_cases hn : ws = []
    · subst hn
      show pton6Loop ([58].intercalate [printNat 16 w] ++ rest) v ≠ _
      rw [List.intercalate_singleton]
      exact hword w hws.1 rest hrest (fun v hv => hfail v hv b) v hv
    · obtain ⟨c, u, hu, hc⟩ := words_head rest hn
      rw [Inet6.hex_cons w hn, List.append_assoc, List.cons_append]
      refine hword w hws.1 _ rfl (fun v hv => ?_) v hv
      by_cases hcur : v.addr_cursor < 8
      · rw [hu, loop_colon hc hcur, ← hu]
        exact ih hws.2 hv
      · rw [loop_stop (by decide) hcur]
        nofun

/-- **A text with two `::` is not read.** -/
theorem twice_none {l r : List Nat} (hl : ∀ w ∈ l, w < 65536) (hr : ∀ w ∈ r, w < 65536)
    (hne : r ≠ []) (hs : s = Inet6.compress (Inet6.hex l) (Inet6.hex r) ++ 58 :: 58 :: t)
    (hdigits : Digits s) (b : Bytes) : pton6 s ≠ some (some b) := by
  rw [pton6_eq_loop hdigits, hs]
  unfold Inet6.compress
  simp only [List.append_assoc, List.cons_append, List.nil_append]
  refine loop_words_fail hl rfl (fun v hv b => ?_) (show Local.new.seencompressed = false from rfl) b
  by_cases hc : v.addr_cursor < 8
  · obtain ⟨c, u, hu, -⟩ := words_head (58 :: 58 :: (t ++ [0])) hne
    have hnil : [58].intercalate (Inet6.hex r) ++ 58 :: 58 :: (t ++ [0]) ≠ [] := by
      rw [hu]
      exact List.cons_ne_nil c u
    have hseen : (skipRun v ([58].intercalate (Inet6.hex r) ++ 58 :: 58 :: (t ++ [0]))
        ).seencompressed = true := by
      unfold skipRun
      rw [if_neg]
      rw [cstr_append (digits_words r).nonzero]
      exact fun h => absurd (List.append_eq_nil_iff.mp h).2 (by simp [cstr, Find.upTo, notNul])
    rw [loop_run hnil hc hv]
    split
    · nofun
    refine loop_words_fail hr rfl (fun v hv b => ?_) hseen b
    rw [pton6Loop.eq_def]
    dsimp only
    rw [if_pos rfl, if_pos rfl, hv, if_pos rfl]
    split
    · rw [if_pos (Or.inl (by decide))]
      nofun
    · nofun
  · rw [loop_stop (by decide) hc]
    nofun

end

/-! ## an IPv4 address at the end -/

theorem dot_mem_v4Text (x : InAddr) : (46 : UInt8) ∈ v4Text x := by
  rw [v4Text_eq, Inet6.v4Text_split]
  simp

theorem pton6_dotted {s : Bytes} (hx : 120 ∉ s) (hdot : 46 ∈ s) :
    pton6 (58 :: 58 :: s) = pton6Dotted s := by
  unfold pton6
  rw [if_neg (by simpa using hx)]
  exact if_pos ⟨List.ne_nil_of_mem hdot, hdot⟩

theorem pton6_v4 (x : InAddr) : pton6 (58 :: 58 :: v4Text x) =
    some (some ((List.replicate 6 0 ++ Inet6.v4Words x).flatMap Inet6.wordBytes)) := by
  have hcolon : (v4Text x).dropWhile (· ≠ 58) = [] := by
    rw [List.dropWhile_eq_nil_iff]
    rintro c hc
    have : c ≠ 58 := by
      rintro rfl
      exact v4Text_free (by decide) (by decide) hc
    simpa using this
  rw [pton6_dotted (v4Text_free (by decide) (by decide)) (dot_mem_v4Text x)]
  unfold pton6Dotted
  rw [hcolon]
  dsimp only
  rw [pton4_ntop4, List.flatMap_append, Inet6.v4Words_bytes]
  rfl

theorem pton6_mapped (x : InAddr) : pton6 (58 :: 58 :: (ascii "ffff:" ++ v4Text x)) =
    some (some ((List.replicate 5 0 ++ 65535 :: Inet6.v4Words x).flatMap Inet6.wordBytes)) := by
  have hx : (120 : UInt8) ∉ ascii "ffff:" ++ v4Text x := by
    have := v4Text_free (x := x) (c := 120) (by decide) (by decide)
    simp only [List.mem_append, this, or_false]
    decide
  have hcolon : (ascii "ffff:" ++ v4Text x).dropWhile (· ≠ 58) = 58 :: v4Text x := rfl
  have hscan : scanHx (ascii "ffff:" ++ v4Text x) = some (65535, 4) :=
    scanHx_word (w := 65535) (s := 58 :: v4Text x) (by decide) (by simp)
  rw [pton6_dotted hx (List.mem_append_right _ (dot_mem_v4Text x))]
  unfold pton6Dotted
  rw [hcolon]
  dsimp only
  rw [hscan, if_neg (by decide), if_pos rfl, pton4_ntop4, List.flatMap_append, List.flatMap_cons,
    Inet6.v4Words_bytes]
  rfl

end InetText
