import LearnDiary.Lib.Pieces
import LearnDiary.Socket.Nat64

/-!
# The text of an IPv6 address

`inet_pton` and `inet_ntop` of the system for `AF_INET6`: the forms of an address are those of RFC
4291, and the printer leaves out the first of the longest runs of zeros and shows an IPv4 address at
the end where the C library does.  An address is eight words of 16 bits.

* `pton_compress`   a text with `::` is read back;
* `pton_ntop`       every address is read back from its text;
* `ntop_plain`      what a text consists of, and how long it is.
-/

namespace Inet6
open Nat64 (In6Addr)
open Dns (InAddr)

/-! ## words -/

def words : Bytes → List Nat
  | hi :: lo :: l => (hi.toNat * 256 + lo.toNat) :: words l
  | _ => []

def wordBytes (w : Nat) : Bytes := [UInt8.ofNat (w / 256), UInt8.ofNat (w % 256)]

def ofWords (ws : List Nat) : Option In6Addr :=
  if h : (ws.flatMap wordBytes).length = 16 then some ⟨ws.flatMap wordBytes, h⟩ else none

def v4Words (x : InAddr) : List Nat :=
  [x.a.toNat * 256 + x.b.toNat, x.c.toNat * 256 + x.d.toNat]

def v4Of (ws : List Nat) : InAddr :=
  let high := ws.getD 6 0
  let low := ws.getD 7 0
  ⟨UInt8.ofNat (high / 256), UInt8.ofNat (high % 256), UInt8.ofNat (low / 256),
    UInt8.ofNat (low % 256)⟩

/-! ## `inet_pton` -/

def isHex (c : UInt8) : Bool := (digitVal c).any (· < 16)

/-- one to four digits -/
def hexToken (t : Bytes) : Option Nat :=
  if t ≠ [] ∧ t.length ≤ 4 ∧ t.all isHex then some (digits 16 t 0) else none

/-- the tokens at the end of an address, the last of which may be an IPv4 address -/
def parseTokens : List Bytes → Option (List Nat)
  | [] => none
  | [t] => (hexToken t).elim ((Dns.socket_inet_pton t).map v4Words) (some [·])
  | t :: ts => (hexToken t).bind fun w => (parseTokens ts).map (w :: ·)

/-- `inet_pton(AF_INET6, s, _)`: an empty token stands for the zeros that are left out -/
def pton (s : Bytes) : Option In6Addr :=
  let tokens := s.splitOn 58
  match tokens.dropWhile (· ≠ []) with
  | [] => (parseTokens tokens).bind ofWords
  | _ :: rest =>
    let left := tokens.takeWhile (· ≠ [])
    -- a text that starts with a colon starts with two of them
    let right := if left = [] then (if rest.head? = some [] then rest.tail else []) else rest
    (left.mapM hexToken).bind fun l =>
      (if right = [[]] then some [] else parseTokens right).bind fun r =>
        if l.length + r.length ≤ 7 then
          ofWords (l ++ List.replicate (8 - (l.length + r.length)) 0 ++ r)
        else none

/-! ## `inet_ntop` -/

/-- the first of the longest runs of two zeros or more: where it starts, and its length -/
def bestRun (ws : List Nat) : Option (Nat × Nat) :=
  (List.range 7).findSome? fun k =>
    ((List.range (k + 1)).find? fun i => (ws.drop i).take (8 - k) == List.replicate (8 - k) 0).map
      fun i => (i, 8 - k)

/-- `::` between the tokens -/
def compress (left right : List Bytes) : Bytes :=
  [58].intercalate left ++ ([58, 58] ++ [58].intercalate right)

def hex (ws : List Nat) : List Bytes := ws.map (printNat 16)

/-- the tokens behind a run of `n` words from `i` on -/
def tokensBehind (ws : List Nat) (i n : Nat) : List Bytes :=
  if i = 0 ∧ (n = 6 ∨ n = 5 ∧ ws.getD 5 0 = 65535) then
    hex ((ws.take 6).drop n) ++ [(v4Of ws).socket_inet_ntop]
  else hex (ws.drop (i + n))

/-- `inet_ntop(AF_INET6, x, _, _)` -/
def ntop (x : In6Addr) : Bytes :=
  let ws := words x.s6_addr
  match bestRun ws with
  | none => [58].intercalate (hex ws)
  | some (i, n) => compress (hex (ws.take i)) (tokensBehind ws i n)

example : ntop ⟨[32, 1, 13, 184, 0, 0, 0, 0, 0, 0, 0, 0, 0, 0, 0, 1], rfl⟩ =
    ascii "2001:db8::1" := by decide +kernel

/-! ## words and bytes -/

theorem word_bytes (hi lo : UInt8) : wordBytes (hi.toNat * 256 + lo.toNat) = [hi, lo] := by
  have hlo := lo.toNat_lt
  have h1 : (hi.toNat * 256 + lo.toNat) / 256 = hi.toNat := by omega
  have h2 : (hi.toNat * 256 + lo.toNat) % 256 = lo.toNat := by omega
  unfold wordBytes
  rw [h1, h2, UInt8.ofNat_toNat, UInt8.ofNat_toNat]

theorem v4Words_bytes (x : InAddr) : (v4Words x).flatMap wordBytes = x.octets := by
  unfold v4Words
  rw [List.flatMap_cons, word_bytes, List.flatMap_cons, word_bytes]
  rfl

theorem words_bytes {l : Bytes} {n : Nat} (h : l.length = 2 * n) :
    (words l).flatMap wordBytes = l ∧ (words l).length = n ∧ ∀ w ∈ words l, w < 65536 := by
  induction n generalizing l with
  | zero =>
    rw [List.length_eq_zero_iff.mp (by omega : l.length = 0)]
    exact ⟨rfl, rfl, nofun⟩
  | succ n ih =>
    match l, h with
    | hi :: lo :: l, h =>
      obtain ⟨hb, hl, hlt⟩ := ih (l := l) (by simp only [List.length_cons] at h; omega)
      refine ⟨?_, ?_, ?_⟩
      · rw [words, List.flatMap_cons, word_bytes, hb]
        rfl
      · rw [words, List.length_cons, hl]
      · rw [words, List.forall_mem_cons]
        have h1 := hi.toNat_lt
        have h2 := lo.toNat_lt
        exact ⟨by omega, hlt⟩

theorem ofWords_words (x : In6Addr) : ofWords (words x.s6_addr) = some x := by
  have hb := (words_bytes (n := 8) x.length_eq).1
  unfold ofWords
  rw [dif_pos (by rw [hb]; exact x.length_eq)]
  simp only [hb]

theorem v4Words_v4Of {ws : List Nat} (hlen : ws.length = 8) (h : ∀ w ∈ ws, w < 65536) :
    v4Words (v4Of ws) = ws.drop 6 := by
  match ws, hlen with
  | [w₀, w₁, w₂, w₃, w₄, w₅, w₆, w₇], _ =>
    have h6 : w₆ < 65536 := h w₆ (by simp)
    have h7 : w₇ < 65536 := h w₇ (by simp)
    show [_, _] = [w₆, w₇]
    simp only [v4Of, List.getD_cons_succ, List.getD_cons_zero, UInt8.toNat_ofNat', List.cons.injEq,
      and_true]
    omega

/-! ## tokens -/

section
variable {w : Nat} {t : Bytes}

theorem isHex_digitChar {d : Nat} (h : d < 16) : isHex (digitChar d) = true := by
  unfold isHex
  rw [digitVal_digitChar (by omega)]
  simpa using h

theorem hexToken_printNat (h : w < 65536) : hexToken (printNat 16 w) = some w := by
  have hlen : (printNat 16 w).length ≤ 4 := printNat_length (k := 3) h
  have hall : (printNat 16 w).all isHex = true := by
    rw [List.all_eq_true]
    intro c hc
    obtain ⟨d, hd, rfl⟩ := printNat_mem (by decide) hc
    exact isHex_digitChar hd
  unfold hexToken
  rw [if_pos ⟨printNat_ne_nil _ _, hlen, hall⟩]
  exact congrArg some (digits_toDigits (by decide) (by decide) (Nat.lt_succ_self w))

theorem colon_not_isHex : isHex 58 = false := by decide

theorem hexToken_some (h : hexToken t = some w) : t ≠ [] ∧ t.length ≤ 4 ∧ ∀ c ∈ t, isHex c = true := by
  unfold hexToken at h
  split at h
  · rename_i ht
    exact ⟨ht.1, ht.2.1, List.all_eq_true.mp ht.2.2⟩
  · cases h

end

def Token (t : Bytes) : Prop := t ≠ [] ∧ 58 ∉ t

theorem hex_token {ws : List Nat} (h : ∀ w ∈ ws, w < 65536) : ∀ t ∈ hex ws, Token t := by
  intro t ht
  obtain ⟨w, hw, rfl⟩ := List.mem_map.mp ht
  obtain ⟨hne, -, hall⟩ := hexToken_some (hexToken_printNat (h w hw))
  refine ⟨hne, fun hc => ?_⟩
  have := hall 58 hc
  rw [colon_not_isHex] at this
  cases this

theorem mapM_hex {ws : List Nat} (h : ∀ w ∈ ws, w < 65536) : (hex ws).mapM hexToken = some ws := by
  induction ws with
  | nil => rfl
  | cons w ws ih =>
    rw [List.forall_mem_cons] at h
    show (printNat 16 w :: hex ws).mapM hexToken = _
    rw [List.mapM_cons, hexToken_printNat h.1, ih h.2]
    rfl

theorem parseTokens_hex {ws : List Nat} (h : ∀ w ∈ ws, w < 65536) (hne : ws ≠ []) :
    parseTokens (hex ws) = some ws := by
  induction ws with
  | nil => exact absurd rfl hne
  | cons w ws ih =>
    rw [List.forall_mem_cons] at h
    cases ws with
    | nil =>
      show (hexToken (printNat 16 w)).elim _ _ = _
      rw [hexToken_printNat h.1]
      rfl
    | cons w' ws =>
      show (hexToken (printNat 16 w)).bind _ = _
      rw [hexToken_printNat h.1, Option.bind_some]
      show (parseTokens (hex (w' :: ws))).map _ = _
      rw [ih h.2 nofun]
      rfl

theorem mem_decimal {n : Nat} {c : UInt8} (h : c ∈ printNat 10 n) : 48 ≤ c ∧ c ≤ 57 := by
  obtain ⟨d, hd, rfl⟩ := printNat_mem (by decide) h
  interval_cases d <;> decide

theorem mem_v4Text {x : InAddr} {c : UInt8} (h : c ∈ x.socket_inet_ntop) :
    c = 46 ∨ ∃ d < 10, c = digitChar d := by
  rcases Pieces.mem_intercalate h with h | ⟨t, ht, hc⟩
  · exact Or.inl (List.mem_singleton.mp h)
  · obtain ⟨n, -, rfl⟩ := List.mem_map.mp ht
    exact Or.inr (printNat_mem (by decide) hc)

theorem v4Text_split (x : InAddr) : x.socket_inet_ntop = printNat 10 x.a.toNat ++ (46 ::
    (printNat 10 x.b.toNat ++ (46 :: (printNat 10 x.c.toNat ++ (46 :: printNat 10 x.d.toNat))))) := by
  unfold InAddr.socket_inet_ntop InAddr.octets
  simp only [List.map_cons, List.map_nil, List.intercalate_cons_cons, List.intercalate_singleton,
    List.append_assoc, List.singleton_append]

theorem v4_token (x : InAddr) : Token x.socket_inet_ntop := by
  constructor
  · rw [v4Text_split]
    simp
  · intro h
    rcases mem_v4Text h with h | ⟨d, hd, h⟩
    · exact absurd h (by decide)
    · have := isHex_digitChar (show d < 16 by omega)
      rw [← h, colon_not_isHex] at this
      cases this

theorem parseTokens_v4 {ws : List Nat} (h : ∀ w ∈ ws, w < 65536) (x : InAddr) :
    parseTokens (hex ws ++ [x.socket_inet_ntop]) = some (ws ++ v4Words x) := by
  induction ws with
  | nil =>
    have hdot : hexToken x.socket_inet_ntop = none := by
      have hmem : (46 : UInt8) ∈ x.socket_inet_ntop := by
        rw [v4Text_split]
        simp
      cases ht : hexToken x.socket_inet_ntop with
      | none => rfl
      | some w =>
        have := (hexToken_some ht).2.2 46 hmem
        exact absurd this (by decide)
    show (hexToken x.socket_inet_ntop).elim _ _ = _
    rw [hdot]
    show (Dns.socket_inet_pton x.socket_inet_ntop).map v4Words = _
    rw [Dns.pton_ntop]
    rfl
  | cons w ws ih =>
    rw [List.forall_mem_cons] at h
    have hsplit : parseTokens (printNat 16 w :: (hex ws ++ [x.socket_inet_ntop])) =
        (hexToken (printNat 16 w)).bind fun w =>
          (parseTokens (hex ws ++ [x.socket_inet_ntop])).map (w :: ·) := by
      cases hex ws <;> rfl
    show parseTokens (printNat 16 w :: (hex ws ++ [x.socket_inet_ntop])) = _
    rw [hsplit, hexToken_printNat h.1, ih h.2]
    rfl

/-! ## reading a text -/

section
variable {left right : List Bytes} {l r : List Nat}

/-- no tokens are one that is empty -/
def ends (ts : List Bytes) : List Bytes := if ts = [] then [[]] else ts

theorem ends_ne_nil (ts : List Bytes) : ends ts ≠ [] := by
  unfold ends
  split
  · nofun
  · assumption

theorem intercalate_ends (ts : List Bytes) : [58].intercalate (ends ts) = [58].intercalate ts := by
  unfold ends
  split
  · rename_i h
    rw [h]
    rfl
  · rfl

theorem splitOn_compress (hl : ∀ t ∈ left, Token t) (hr : ∀ t ∈ right, Token t) :
    (compress left right).splitOn 58 = ends left ++ [] :: ends right := by
  have htext : compress left right = [58].intercalate (ends left ++ [] :: ends right) := by
    rw [Pieces.intercalate_append (ends_ne_nil left) (List.cons_ne_nil _ _),
      List.intercalate_cons_of_ne_nil (ends_ne_nil right), intercalate_ends, intercalate_ends]
    rfl
  have hends : ∀ ts : List Bytes, (∀ t ∈ ts, Token t) → ∀ t ∈ ends ts, (58 : UInt8) ∉ t := by
    intro ts h t ht
    unfold ends at ht
    split at ht
    · rw [List.mem_singleton.mp ht]
      nofun
    · exact (h t ht).2
  rw [htext, List.splitOn_intercalate]
  · intro t ht
    rcases List.mem_append.mp ht with ht | ht
    · exact hends left hl t ht
    · rcases List.mem_cons.mp ht with rfl | ht
      · nofun
      · exact hends right hr t ht
  · simp

/-- **A text with `::` is read back**, with zeros for what is left out. -/
theorem pton_compress (hl : ∀ t ∈ left, Token t) (hr : ∀ t ∈ right, Token t)
    (hleft : left.mapM hexToken = some l)
    (hright : (if right = [] then some [] else parseTokens right) = some r)
    (hlen : l.length + r.length ≤ 7) :
    pton (compress left right) =
      ofWords (l ++ List.replicate (8 - (l.length + r.length)) 0 ++ r) := by
  have hparse : (if ends right = [[]] then some [] else parseTokens (ends right)) = some r := by
    unfold ends
    by_cases hn : right = []
    · rw [if_pos hn] at hright
      rw [if_pos hn, if_pos rfl, hright]
    · have hne : right ≠ [[]] := fun h => (hr [] (by rw [h]; exact List.mem_singleton_self _)).1 rfl
      rw [if_neg hn] at hright
      rw [if_neg hn, if_neg hne, hright]
  unfold pton
  dsimp only
  rw [splitOn_compress hl hr]
  by_cases hn : left = []
  · subst hn
    cases hleft
    show Option.bind (if ends right = [[]] then some [] else parseTokens (ends right)) _ = _
    rw [hparse, Option.bind_some, if_pos hlen]
  · have hfree : ∀ t ∈ left, (decide (t ≠ [])) = true := fun t ht => by simpa using (hl t ht).1
    have hends : ends left = left := by
      unfold ends
      rw [if_neg hn]
    rw [hends, List.dropWhile_append_of_pos hfree, List.takeWhile_append_of_pos hfree,
      List.dropWhile_cons_of_neg (by simp), List.takeWhile_cons_of_neg (by simp), List.append_nil]
    simp only [if_neg hn, hleft, Option.bind_some, hparse, if_pos hlen]

theorem pton_words {ws : List Nat} (h : ∀ w ∈ ws, w < 65536) (hne : ws ≠ []) :
    pton ([58].intercalate (hex ws)) = ofWords ws := by
  have hex_ne : hex ws ≠ [] := by simpa [hex] using hne
  have hfree : ∀ t ∈ hex ws, (decide (t ≠ [])) = true :=
    fun t ht => by simpa using (hex_token h t ht).1
  unfold pton
  dsimp only
  rw [List.splitOn_intercalate _ (fun t ht => (hex_token h t ht).2) hex_ne,
    List.dropWhile_eq_nil_iff.mpr hfree]
  simp only
  rw [parseTokens_hex h hne, Option.bind_some]

end

/-! ## every address -/

theorem bestRun_some {ws : List Nat} {i n : Nat} (h : bestRun ws = some (i, n)) :
    2 ≤ n ∧ i + n ≤ 8 ∧ (ws.drop i).take n = List.replicate n 0 := by
  obtain ⟨k, hk, h⟩ := List.exists_of_findSome?_eq_some h
  obtain ⟨j, hj, he⟩ := Option.map_eq_some_iff.mp h
  cases he
  have hmem := List.mem_range.mp (List.mem_of_find?_eq_some hj)
  have hrun := List.find?_some hj
  rw [List.mem_range] at hk
  exact ⟨by omega, by omega, beq_iff_eq.mp hrun⟩

theorem words_of_run {ws : List Nat} {i n : Nat} (hlen : ws.length = 8)
    (h : bestRun ws = some (i, n)) :
    ws.take i ++ List.replicate (8 - ((ws.take i).length + (ws.drop (i + n)).length)) 0 ++
      ws.drop (i + n) = ws := by
  obtain ⟨-, hle, hrun⟩ := bestRun_some h
  have hcount : 8 - ((ws.take i).length + (ws.drop (i + n)).length) = n := by
    rw [List.length_take, List.length_drop]
    omega
  rw [hcount, ← hrun, ← List.drop_drop, List.append_assoc, List.take_append_drop,
    List.take_append_drop]

theorem tokensBehind_tokens {ws : List Nat} (h : ∀ w ∈ ws, w < 65536) (i n : Nat) :
    ∀ t ∈ tokensBehind ws i n, Token t := by
  have hex_token' : ∀ k, ∀ t ∈ hex (ws.drop k), Token t := fun k =>
    hex_token fun w hw => h w (List.mem_of_mem_drop hw)
  unfold tokensBehind
  split
  · intro t ht
    rcases List.mem_append.mp ht with ht | ht
    · exact hex_token (fun w hw => h w (List.mem_of_mem_take (List.mem_of_mem_drop hw))) t ht
    · rw [List.mem_singleton.mp ht]
      exact v4_token _
  · exact hex_token' _

/-- **Every address is read back from its text.** -/
theorem pton_ntop (x : In6Addr) : pton (ntop x) = some x := by
  obtain ⟨-, hlen, hlt⟩ := words_bytes (n := 8) x.length_eq
  unfold ntop
  dsimp only
  generalize hws : words x.s6_addr = ws at hlen hlt
  have hx : ofWords ws = some x := by
    rw [← hws]
    exact ofWords_words x
  cases hrun : bestRun ws with
  | none =>
    dsimp only
    rw [pton_words hlt (by rintro rfl; cases hlen), hx]
  | some run =>
    obtain ⟨i, n⟩ := run
    obtain ⟨hn, hle, -⟩ := bestRun_some hrun
    have hsplit := words_of_run hlen hrun
    dsimp only
    have hfront : ∀ w ∈ ws.take i, w < 65536 := fun w hw => hlt w (List.mem_of_mem_take hw)
    have hback : ∀ w ∈ ws.drop (i + n), w < 65536 := fun w hw => hlt w (List.mem_of_mem_drop hw)
    rw [pton_compress (r := ws.drop (i + n)) (hex_token hfront) (tokensBehind_tokens hlt i n)
      (mapM_hex hfront), hsplit, hx]
    · unfold tokensBehind
      by_cases hv4 : i = 0 ∧ (n = 6 ∨ n = 5 ∧ ws.getD 5 0 = 65535)
      · rw [if_pos hv4, if_neg (by simp)]
        rw [parseTokens_v4 (fun w hw => hlt w (List.mem_of_mem_take (List.mem_of_mem_drop hw))),
          v4Words_v4Of hlen hlt, hv4.1, Nat.zero_add]
        have hsix : n ≤ (ws.take 6).length := by
          rw [List.length_take]
          omega
        rw [← List.drop_append_of_le_length hsix, List.take_append_drop]
      · rw [if_neg hv4]
        by_cases hnil : ws.drop (i + n) = []
        · rw [hnil]
          rfl
        · rw [if_neg (by simpa [hex] using hnil), parseTokens_hex hback hnil]
    · rw [List.length_take, List.length_drop]
      omega

/-! ## what a text consists of -/

def isText (c : UInt8) : Bool := isHex c || c == 58 || c == 46

def Plain (s : Bytes) : Prop := ∀ c ∈ s, isText c = true

theorem plain_of_isHex {t : Bytes} (h : ∀ c ∈ t, isHex c = true) : Plain t := by
  intro c hc
  unfold isText
  rw [h c hc]
  rfl

theorem plain_intercalate {ts : List Bytes} (h : ∀ t ∈ ts, Plain t) :
    Plain ([58].intercalate ts) := by
  intro c hc
  rcases Pieces.mem_intercalate hc with hc | ⟨t, ht, hc⟩
  · rw [List.mem_singleton.mp hc]
    decide
  · exact h t ht c hc

theorem v4Text_plain (x : InAddr) : Plain x.socket_inet_ntop := by
  intro c hc
  rcases mem_v4Text hc with rfl | ⟨d, hd, rfl⟩
  · decide
  · unfold isText
    rw [isHex_digitChar (by omega)]
    rfl

theorem length_v4Text (x : InAddr) : x.socket_inet_ntop.length ≤ 15 := by
  have hoctet : ∀ n : UInt8, (printNat 10 n.toNat).length ≤ 3 := by
    intro n
    have hn := n.toNat_lt
    exact printNat_length (k := 2) (by omega)
  have ha := hoctet x.a
  have hb := hoctet x.b
  have hc := hoctet x.c
  have hd := hoctet x.d
  rw [v4Text_split]
  simp only [List.length_append, List.length_cons]
  omega

theorem hex_plain {ws : List Nat} (h : ∀ w ∈ ws, w < 65536) : ∀ t ∈ hex ws, Plain t := by
  intro t ht
  obtain ⟨w, hw, rfl⟩ := List.mem_map.mp ht
  exact plain_of_isHex (hexToken_some (hexToken_printNat (h w hw))).2.2

theorem hex_cons {ws : List Nat} (w : Nat) (hne : ws ≠ []) : [58].intercalate (hex (w :: ws)) =
    printNat 16 w ++ (58 :: [58].intercalate (hex ws)) := by
  show [58].intercalate (printNat 16 w :: hex ws) = _
  rw [List.intercalate_cons_of_ne_nil (by simpa [hex] using hne)]
  simp only [List.append_assoc, List.singleton_append]

theorem length_hex {ws : List Nat} (h : ∀ w ∈ ws, w < 65536) :
    ([58].intercalate (hex ws)).length ≤ 5 * ws.length - 1 := by
  induction ws with
  | nil => exact Nat.zero_le _
  | cons w ws ih =>
    rw [List.forall_mem_cons] at h
    have hw : (printNat 16 w).length ≤ 4 := printNat_length (k := 3) h.1
    by_cases hn : ws = []
    · subst hn
      show ([58].intercalate [printNat 16 w]).length ≤ 4
      rwa [List.intercalate_singleton]
    · have hpos := List.length_pos_iff.mpr hn
      have hrest := ih h.2
      rw [hex_cons w hn]
      simp only [List.length_append, List.length_cons]
      omega

/-- the tokens behind a run have at most 20 characters in front of 6 words -/
theorem tokensBehind_text {ws : List Nat} {i n : Nat} (hlen : ws.length = 8)
    (h : ∀ w ∈ ws, w < 65536) (hn : 2 ≤ n) (hle : i + n ≤ 8) :
    Plain ([58].intercalate (tokensBehind ws i n)) ∧
      ([58].intercalate (tokensBehind ws i n)).length ≤ 5 * (6 - i) := by
  have hsix : ∀ k, ∀ w ∈ (ws.take 6).drop k, w < 65536 :=
    fun k w hw => h w (List.mem_of_mem_take (List.mem_of_mem_drop hw))
  have hv4 := length_v4Text (v4Of ws)
  unfold tokensBehind
  split
  · rename_i hc
    constructor
    · refine plain_intercalate fun t ht => ?_
      rcases List.mem_append.mp ht with ht | ht
      · exact hex_plain (hsix n) t ht
      · rw [List.mem_singleton.mp ht]
        exact v4Text_plain _
    · by_cases hnil : (ws.take 6).drop n = []
      · rw [hnil]
        show ([58].intercalate [(v4Of ws).socket_inet_ntop]).length ≤ _
        rw [List.intercalate_singleton]
        omega
      · have hword := length_hex (hsix n)
        rw [List.length_drop, List.length_take] at hword
        rw [Pieces.intercalate_append (by simpa [hex] using hnil) (List.cons_ne_nil _ _),
          List.intercalate_singleton]
        simp only [List.length_append, List.length_cons, List.length_nil]
        omega
  · have hback : ∀ w ∈ ws.drop (i + n), w < 65536 := fun w hw => h w (List.mem_of_mem_drop hw)
    have hword := length_hex hback
    rw [List.length_drop] at hword
    exact ⟨plain_intercalate (hex_plain hback), by omega⟩

/-- **The text of an address** has 39 characters at most. -/
theorem ntop_plain (x : In6Addr) : Plain (ntop x) ∧ (ntop x).length ≤ 39 := by
  obtain ⟨-, hlen, hlt⟩ := words_bytes (n := 8) x.length_eq
  unfold ntop
  dsimp only
  generalize words x.s6_addr = ws at hlen hlt
  cases hrun : bestRun ws with
  | none =>
    have := length_hex hlt
    exact ⟨plain_intercalate (hex_plain hlt), by dsimp only; omega⟩
  | some run =>
    obtain ⟨i, n⟩ := run
    obtain ⟨hn, hle, -⟩ := bestRun_some hrun
    have hfront : ∀ w ∈ ws.take i, w < 65536 := fun w hw => hlt w (List.mem_of_mem_take hw)
    obtain ⟨hplain, htail⟩ := tokensBehind_text hlen hlt hn hle
    have hhead := length_hex hfront
    rw [List.length_take] at hhead
    dsimp only
    unfold compress
    constructor
    · intro c hc
      rcases List.mem_append.mp hc with hc | hc
      · exact plain_intercalate (hex_plain hfront) c hc
      · rcases List.mem_append.mp hc with hc | hc
        · have hcolon : c = 58 := by simpa using hc
          rw [hcolon]
          decide
        · exact hplain c hc
    · simp only [List.length_append, List.length_cons, List.length_nil]
      omega

/-! ## what can be read -/

theorem mapM_hexToken {ts : List Bytes} {l : List Nat} (h : ts.mapM hexToken = some l) :
    ∀ t ∈ ts, Plain t := by
  induction ts generalizing l with
  | nil => nofun
  | cons t ts ih =>
    rw [List.mapM_cons, Option.bind_eq_bind, Option.bind_eq_some_iff] at h
    obtain ⟨w, hw, h⟩ := h
    rw [Option.bind_eq_bind, Option.bind_eq_some_iff] at h
    obtain ⟨l', hl', -⟩ := h
    exact List.forall_mem_cons.mpr ⟨plain_of_isHex (hexToken_some hw).2.2, ih hl'⟩

theorem digitVal_figure {c : UInt8} (h1 : 48 ≤ c) (h2 : c ≤ 57) :
    digitVal c = some (c.toNat - 48) := by
  unfold digitVal
  rw [if_pos (by simp [h1, h2])]

theorem le_digits {s : Bytes} (h : ∀ c ∈ s, 48 ≤ c ∧ c ≤ 57) (acc : Nat) :
    acc * 10 ^ s.length ≤ digits 10 s acc := by
  induction s generalizing acc with
  | nil => simp [digits]
  | cons c s ih =>
    rw [List.forall_mem_cons] at h
    have hlt : c.toNat - 48 < 10 := by
      have := UInt8.le_iff_toNat_le.mp h.1.2
      have : (57 : UInt8).toNat = 57 := rfl
      omega
    have hrest := ih h.2 (acc * 10 + (c.toNat - 48))
    rw [digits, digitVal_figure h.1.1 h.1.2]
    dsimp only
    rw [if_pos hlt]
    calc acc * 10 ^ (s.length + 1) = acc * 10 * 10 ^ s.length := by
          rw [Nat.pow_succ, Nat.mul_comm (10 ^ s.length), Nat.mul_assoc]
      _ ≤ (acc * 10 + (c.toNat - 48)) * 10 ^ s.length := Nat.mul_le_mul_right _ (Nat.le_add_right _ _)
      _ ≤ _ := hrest

theorem octet_some {t : Bytes} {n : UInt8} (h : Dns.octet t = some n) :
    t ≠ [] ∧ t.length ≤ 3 ∧ ∀ c ∈ t, 48 ≤ c ∧ c ≤ 57 := by
  unfold Dns.octet at h
  dsimp only at h
  split at h
  · rename_i ht
    obtain ⟨hne, hall, hzero, hval⟩ := ht
    have hdigit : ∀ c ∈ t, 48 ≤ c ∧ c ≤ 57 := fun c hc => by
      simpa using List.all_eq_true.mp hall c hc
    refine ⟨hne, ?_, hdigit⟩
    obtain ⟨c, l, rfl⟩ := List.exists_cons_of_ne_nil hne
    by_contra hlong
    rw [List.length_cons] at hlong
    have hc := hdigit c List.mem_cons_self
    -- the first digit is not 0, so there are hundreds of hundreds
    have hpos : 1 ≤ c.toNat - 48 := by
      have h0 : c.toNat ≠ 48 := fun e => by
        have hc48 : c = 48 := UInt8.toNat_inj.mp e
        have := hzero (by rw [hc48]; rfl)
        rw [List.length_cons] at this
        omega
      have : (48 : UInt8).toNat ≤ c.toNat := UInt8.le_iff_toNat_le.mp hc.1
      have : (48 : UInt8).toNat = 48 := rfl
      omega
    have hlt : c.toNat - 48 < 10 := by
      have : c.toNat ≤ (57 : UInt8).toNat := UInt8.le_iff_toNat_le.mp hc.2
      have : (57 : UInt8).toNat = 57 := rfl
      omega
    have hle := le_digits (fun c' hc' => hdigit c' (List.mem_cons_of_mem _ hc')) (c.toNat - 48)
    rw [digits, digitVal_figure hc.1 hc.2] at hval
    dsimp only at hval
    rw [if_pos hlt, Nat.zero_mul, Nat.zero_add] at hval
    have hpow : 10 ^ 3 ≤ 10 ^ l.length := Nat.pow_le_pow_right (by decide) (by omega)
    have hmul := Nat.mul_le_mul hpos hpow
    omega
  · cases h

theorem v4_plain {s : Bytes} {x : InAddr} (h : Dns.socket_inet_pton s = some x) :
    s ≠ [] ∧ s.length ≤ 15 ∧ ∀ c ∈ s, (48 ≤ c ∧ c ≤ 57) ∨ c = 46 := by
  unfold Dns.socket_inet_pton at h
  split at h
  · rename_i a b c d htokens
    obtain ⟨t₁, t₂, t₃, t₄, hsplit, h1, h2, h3, h4⟩ : ∃ t₁ t₂ t₃ t₄,
        s.splitOn 46 = [t₁, t₂, t₃, t₄] ∧ Dns.octet t₁ = some a ∧ Dns.octet t₂ = some b ∧
          Dns.octet t₃ = some c ∧ Dns.octet t₄ = some d := by
      obtain ⟨t₁, ts, hs, h1, htokens⟩ := List.map_eq_cons_iff.mp htokens
      obtain ⟨t₂, ts, rfl, h2, htokens⟩ := List.map_eq_cons_iff.mp htokens
      obtain ⟨t₃, ts, rfl, h3, htokens⟩ := List.map_eq_cons_iff.mp htokens
      obtain ⟨t₄, ts, rfl, h4, htokens⟩ := List.map_eq_cons_iff.mp htokens
      rw [List.map_eq_nil_iff.mp htokens] at hs
      exact ⟨t₁, t₂, t₃, t₄, hs, h1, h2, h3, h4⟩
    have hs : s = t₁ ++ (46 :: (t₂ ++ (46 :: (t₃ ++ (46 :: t₄))))) := by
      have hjoin : [46].intercalate (s.splitOn 46) = s := List.intercalate_splitOn 46
      rw [← hjoin, hsplit]
      simp only [List.intercalate_cons_cons, List.intercalate_singleton, List.append_assoc,
        List.singleton_append]
    obtain ⟨-, l1, p1⟩ := octet_some h1
    obtain ⟨-, l2, p2⟩ := octet_some h2
    obtain ⟨-, l3, p3⟩ := octet_some h3
    obtain ⟨-, l4, p4⟩ := octet_some h4
    refine ⟨by rw [hs]; simp, ?_, fun c hc => ?_⟩
    · rw [hs]
      simp only [List.length_append, List.length_cons]
      omega
    · rw [hs] at hc
      simp only [List.mem_append, List.mem_cons] at hc
      rcases hc with hc | rfl | hc | rfl | hc | rfl | hc
      · exact Or.inl (p1 c hc)
      · exact Or.inr rfl
      · exact Or.inl (p2 c hc)
      · exact Or.inr rfl
      · exact Or.inl (p3 c hc)
      · exact Or.inr rfl
      · exact Or.inl (p4 c hc)
  · cases h

theorem isText_of_v4 {c : UInt8} (h : (48 ≤ c ∧ c ≤ 57) ∨ c = 46) : isText c = true := by
  rcases h with h | rfl
  · have hlt : c.toNat ≤ (57 : UInt8).toNat := UInt8.le_iff_toNat_le.mp h.2
    have h57 : (57 : UInt8).toNat = 57 := rfl
    unfold isText isHex
    rw [digitVal_figure h.1 h.2]
    simp
    omega
  · decide

theorem parseTokens_plain {ts : List Bytes} {l : List Nat} (h : parseTokens ts = some l) :
    ∀ t ∈ ts, Plain t := by
  fun_induction parseTokens ts generalizing l with
  | case1 => cases h
  | case2 t =>
    rw [List.forall_mem_singleton]
    cases ht : hexToken t with
    | some w => exact plain_of_isHex (hexToken_some ht).2.2
    | none =>
      rw [ht] at h
      obtain ⟨x, hx, -⟩ := Option.map_eq_some_iff.mp h
      exact fun c hc => isText_of_v4 ((v4_plain hx).2.2 c hc)
  | case3 t ts hne ih =>
    obtain ⟨w, hw, h⟩ := Option.bind_eq_some_iff.mp h
    obtain ⟨l', hl', -⟩ := Option.map_eq_some_iff.mp h
    exact List.forall_mem_cons.mpr ⟨plain_of_isHex (hexToken_some hw).2.2, ih hl'⟩

/-- **What can be read** is digits, colons and dots. -/
theorem pton_plain {s : Bytes} {x : In6Addr} (h : pton s = some x) : Plain s := by
  have htokens : ∀ t ∈ s.splitOn 58, Plain t := by
    unfold pton at h
    dsimp only at h
    have hsplit := List.takeWhile_append_dropWhile (p := fun t : Bytes => decide (t ≠ []))
      (l := s.splitOn 58)
    split at h
    · obtain ⟨l, hl, -⟩ := Option.bind_eq_some_iff.mp h
      exact parseTokens_plain hl
    · rename_i e rest hd
      obtain ⟨l, hl, h⟩ := Option.bind_eq_some_iff.mp h
      obtain ⟨r, hr, -⟩ := Option.bind_eq_some_iff.mp h
      have he : e = [] := by
        have := List.head?_dropWhile_not (fun t : Bytes => decide (t ≠ [])) (s.splitOn 58)
        rw [hd] at this
        simpa using this
      have hnil : Plain [] := nofun
      have hplain : ∀ right : List Bytes,
          (if right = [[]] then some [] else parseTokens right) = some r → ∀ t ∈ right, Plain t := by
        intro right hright
        split at hright
        · rename_i hone
          rw [hone, List.forall_mem_singleton]
          exact hnil
        · exact parseTokens_plain hright
      rw [← hsplit, hd]
      intro t ht
      rcases List.mem_append.mp ht with ht | ht
      · exact mapM_hexToken hl t ht
      rcases List.mem_cons.mp ht with rfl | ht
      · rw [he]
        exact hnil
      split at hr
      · split at hr
        · rename_i hhead
          cases rest with
          | nil => cases ht
          | cons e' rest =>
            cases hhead
            rcases List.mem_cons.mp ht with rfl | ht
            · exact hnil
            · exact hplain rest hr t ht
        · cases hr
      · exact hplain rest hr t ht
  have hjoin : [58].intercalate (s.splitOn 58) = s := List.intercalate_splitOn 58
  rw [← hjoin]
  exact plain_intercalate htokens

/-- a NAT64 address with its IPv4 address shown -/
theorem pton_nat64 (x : InAddr) : pton (ascii "64:ff9b::" ++ x.socket_inet_ntop) =
    ofWords ([100, 65435, 0, 0, 0, 0] ++ v4Words x) := by
  have htext : ascii "64:ff9b::" ++ x.socket_inet_ntop =
      compress (hex [100, 65435]) (hex [] ++ [x.socket_inet_ntop]) := by
    unfold compress
    show _ = _ ++ ([58, 58] ++ [58].intercalate [x.socket_inet_ntop])
    rw [List.intercalate_singleton]
    rfl
  have hright : ∀ t ∈ hex [] ++ [x.socket_inet_ntop], Token t := by
    intro t ht
    rw [List.mem_singleton.mp ht]
    exact v4_token x
  rw [htext, pton_compress (hex_token (by decide)) hright (mapM_hex (by decide))
    (by rw [if_neg (by simp), parseTokens_v4 (by simp)])]
  · rfl
  · show 4 ≤ 7
    decide

end Inet6
