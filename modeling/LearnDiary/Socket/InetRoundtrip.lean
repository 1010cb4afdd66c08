import LearnDiary.Socket.InetText

/-!
# Inet texts that are read back (comm/socket/unix_socket.cc)

`inet_ntop_v6` writes no NUL behind a run of zeros at the end, so the text there depends on what the
buffer has had, and one `::` for each zero word where there are no two in a row.

* `run_ops`      the buffer after the last loop;
* `inet_text`    every IPv4 address is read back, and which IPv6 addresses are.
-/

namespace InetText
open Nat64 (In6Addr memcpy)
open Dns (InAddr)

/-- the string in a buffer, if it has a NUL -/
def readString (buf : Bytes) : Option Bytes := if 0 ∈ buf then some (cstr buf) else none

/-- `socket_inet_pton` of what `socket_inet_ntop` writes to `dst` -/
def readBack4 (x : InAddr) (dst : Bytes) : Option (Option Bytes) :=
  ((ntop4 x dst).bind readString).bind pton4

def readBack6 (INET6_ADDRSTRLEN : Nat) (x : In6Addr) (dst : Bytes) : Option (Option Bytes) :=
  ((ntop6 INET6_ADDRSTRLEN x dst).bind readString).bind pton6

/-- the length of the longest run of zeros -/
def longest (zeros : List Bool) : Nat :=
  ((Pieces.pieces (! ·) zeros).map List.length).foldr max 0

/-- two zeros in a row, and a longest run that does not reach the end; or one zero at most, not at the
end -/
def Kept (zeros : List Bool) : Prop :=
  (2 ≤ longest zeros ∧ longest (zeros.take 7) = longest zeros) ∨
    (zeros.count true ≤ 1 ∧ zeros[7]? ≠ some true)
deriving Decidable

/-! ## what the last loop writes -/

section
variable {INET6_ADDRSTRLEN : Nat} {dst s : Bytes} {ws : List Nat} {ops : List Op} {c : UInt8}

def Op.text (ws : List Nat) : Op → Bytes
  | .colon => [58]
  | .word i => printNat 16 (ws.getD i 0)

def opsText (ws : List Nat) (ops : List Op) : Bytes := ops.flatMap (Op.text ws)

/-- a text in front of what `dst` has had, with `c` behind it -/
def wrote (dst text : Bytes) (c : UInt8) : Dst :=
  ⟨text ++ c :: dst.drop (text.length + 1), text.length⟩

theorem cursor_wrote {text : Bytes} : (wrote dst text c).cursor = text.length := rfl

theorem length_wrote {text : Bytes} (h : text.length < dst.length) :
    (wrote dst text c).dst.length = dst.length := by
  show (text ++ c :: dst.drop (text.length + 1)).length = _
  rw [List.length_append, List.length_cons, List.length_drop]
  omega

theorem memcpy_wrote {text : Bytes} :
    memcpy (wrote dst text c).dst (wrote dst text c).cursor s =
      text ++ (s ++ (c :: dst.drop (text.length + 1)).drop s.length) := by
  show memcpy (text ++ _) text.length _ = _
  unfold memcpy
  rw [List.take_left, ← List.drop_drop, List.drop_left, List.append_assoc]

theorem drop_eq_getD_cons {n : Nat} (h : n < dst.length) :
    dst.drop n = dst.getD n 0 :: dst.drop (n + 1) := by
  rw [List.drop_eq_getElem_cons h, List.getD_eq_getElem?_getD, List.getElem?_eq_getElem h,
    Option.getD_some]

theorem start_wrote (h : 0 < dst.length) : (⟨dst, 0⟩ : Dst) = wrote dst [] (dst.getD 0 0) := by
  have := drop_eq_getD_cons h
  rw [List.drop_zero] at this
  exact congrArg (Dst.mk · 0) this

theorem put_wrote {text : Bytes} (h : text.length + 1 < dst.length) :
    (wrote dst text c).put 58 =
      some (wrote dst (text ++ [58]) (dst.getD (text ++ [58]).length 0)) := by
  have hlen : (text ++ [58]).length = text.length + 1 := by simp
  unfold Dst.put
  rw [length_wrote (by omega), if_pos (by rw [cursor_wrote]; omega), memcpy_wrote]
  unfold wrote
  rw [hlen, ← drop_eq_getD_cons h, List.append_assoc]
  rfl

theorem print_wrote {text : Bytes} {room : Nat} (hroom : s.length < room)
    (h : text.length + s.length < dst.length) :
    (wrote dst text c).print room s = some (wrote dst (text ++ s) 0) := by
  have hout : (if room = 0 then [] else s.take (room - 1) ++ [0]) = s ++ [0] := by
    rw [if_neg (by omega), List.take_of_length_le (by omega)]
  unfold Dst.print
  rw [hout]
  dsimp only
  rw [length_wrote (by omega), if_pos (by rw [cursor_wrote]; simp; omega), memcpy_wrote]
  unfold wrote
  congr 2
  · rw [List.length_append, List.length_append, List.length_singleton, List.drop_succ_cons,
      List.drop_drop, List.append_assoc, List.append_assoc]
    show _ ++ (s ++ 0 :: dst.drop (text.length + 1 + s.length)) = _
    rw [Nat.add_right_comm]
  · exact List.length_append.symm

theorem v4_wrote {text : Bytes} {size : Nat} {x : InAddr} (hsize : 16 ≤ size)
    (h : text.length + (v4Text x).length < dst.length) :
    (wrote dst text c).v4 size x = some (wrote dst (text ++ v4Text x) 0).dst := by
  unfold Dst.v4
  rw [if_neg (by omega), length_wrote (by omega), if_pos (by rw [cursor_wrote]; omega), memcpy_wrote]
  unfold wrote
  dsimp only
  rw [List.length_append, List.length_append, List.length_singleton, List.drop_succ_cons,
    List.drop_drop, List.append_assoc, List.append_assoc]
  show some (_ ++ (_ ++ 0 :: dst.drop (text.length + 1 + (v4Text x).length))) = _
  rw [Nat.add_right_comm]

/-- what is behind the text: a NUL only behind a word -/
def endByte (dst : Bytes) (ops : List Op) (n : Nat) : UInt8 :=
  match ops.getLast? with
  | some (.word _) => 0
  | _ => dst.getD n 0

/-- **The last loop.** -/
theorem run_ops (hdst : INET6_ADDRSTRLEN ≤ dst.length)
    (h : (opsText ws ops).length < INET6_ADDRSTRLEN) :
    ops.foldlM (Dst.exec INET6_ADDRSTRLEN ws) ⟨dst, 0⟩ =
      some (wrote dst (opsText ws ops) (endByte dst ops (opsText ws ops).length)) := by
  induction ops using List.reverseRecOn with
  | nil =>
    exact congrArg some (start_wrote (by omega))
  | append_singleton ops op ih =>
    have htext : opsText ws (ops ++ [op]) = opsText ws ops ++ op.text ws := by
      unfold opsText
      rw [List.flatMap_append, List.flatMap_singleton]
    rw [htext] at h ⊢
    rw [List.length_append] at h
    rw [List.foldlM_append, ih (by omega)]
    show Option.bind (Dst.exec _ _ _ op) _ = _
    cases op with
    | colon =>
      have hc : endByte dst (ops ++ [Op.colon]) = fun n => dst.getD n 0 := by
        unfold endByte
        rw [List.getLast?_concat]
      rw [hc]
      show Option.bind (Dst.put _ 58) _ = _
      rw [put_wrote (by simp only [Op.text, List.length_singleton] at h; omega)]
      rfl
    | word i =>
      have hc : endByte dst (ops ++ [Op.word i]) = fun _ => 0 := by
        unfold endByte
        rw [List.getLast?_concat]
      rw [hc]
      show Option.bind (Dst.print _ (INET6_ADDRSTRLEN - (opsText ws ops).length) _) _ = _
      simp only [Op.text] at h
      rw [print_wrote (by omega) (by omega)]
      rfl

theorem digits_opsText (ws : List Nat) (ops : List Op) : Digits (opsText ws ops) := by
  intro c hc
  obtain ⟨op, -, hc⟩ := List.mem_flatMap.mp hc
  cases op with
  | colon => exact Or.inr (List.mem_singleton.mp hc)
  | word i => exact Or.inl (mem_word hc).1

/-! ## what is read there -/

theorem readString_wrote {text : Bytes} (h : ∀ c ∈ text, notNul c = true) :
    readString (wrote dst text 0).dst = some text := by
  unfold readString wrote
  dsimp only
  rw [if_pos (by simp), cstr_append h]
  exact congrArg some (List.append_nil text)

theorem read_x {text : Bytes} (h : ∀ c ∈ text, notNul c = true) :
    ∀ buf : Bytes, ((readString (text ++ 120 :: buf)).bind pton6) ∈
      ([none, some none] : List (Option (Option Bytes))) := by
  intro buf
  unfold readString
  split
  · have hx : (120 : UInt8) ∈ cstr (text ++ 120 :: buf) := by
      rw [cstr_append h]
      exact List.mem_append_right _ List.mem_cons_self
    rw [Option.bind_some]
    unfold pton6
    rw [if_pos hx]
    simp
  · simp

end

/-! ## the patterns of zero words -/

def joinOps (is : List Nat) : List Op := [.colon].intercalate (is.map fun i => [.word i])

/-- `::` behind the words in front of `i` -/
def colonOps (i : Nat) (ops : List Op) : List Op :=
  joinOps (List.range' 0 i) ++ (.colon :: .colon :: ops)

def printed (zeros : List Bool) : List Op := printOps (marks zeros) 8 0

section
variable {z : List Bool} {ws : List Nat} {ops : List Op} {i n : Nat}

theorem kept_ops (hz : z.length = 8) (h : Kept z) : (printed z).getLast? = some (.word 7) ∧
    (printed z = joinOps (List.range' 0 8) ∨ ∃ i n, 0 < n ∧ i + n < 8 ∧
      (z.drop i).take n = List.replicate n true ∧
        printed z = colonOps i (joinOps (List.range' (i + n) (8 - (i + n))))) := by
  have hmarks : ∀ z : List Bool, z.length = 8 → Kept z →
      let m := marks z
      let i := m.runpos.idxOf 1
      let n := m.max.toNat
      let ops := printOps m 8 0
      ops.getLast? = some (.word 7) ∧ (ops = joinOps (List.range' 0 8) ∨ (0 < n ∧ i + n < 8 ∧
        (z.drop i).take n = List.replicate n true ∧
          ops = colonOps i (joinOps (List.range' (i + n) (8 - (i + n)))))) := by
    intro z hz h
    match z, hz, h with
    | [a, b, c, d, e, f, g, k], _, h =>
      revert a b c d e f g k
      decide +kernel
  exact (hmarks z hz h).imp_right (Or.imp_right fun hrun => ⟨_, _, hrun⟩)

theorem not_kept_ops (hz : z.length = 8) (h : ¬ Kept z) : (printed z).getLast? = some .colon ∨
    ∃ i < 8, ∃ j < 8, i + 1 < j ∧
      colonOps i (joinOps (List.range' (i + 1) (j - (i + 1))) ++ [.colon, .colon]) <+: printed z := by
  match z, hz, h with
  | [a, b, c, d, e, f, g, k], _, h =>
    revert a b c d e f g k
    decide +kernel

theorem marks_v4 (hz : z.length = 8) (h : (marks z).runpos.getD 0 0 = 1) :
    ((marks z).maxpos = 5 → Kept z ∧ z.take 6 = List.replicate 6 true) ∧
      ((marks z).maxpos = 4 → Kept z ∧ z.take 5 = List.replicate 5 true) := by
  match z, hz, h with
  | [a, b, c, d, e, f, g, k], _, h =>
    revert a b c d e f g k
    decide +kernel

/-- four digits for each word at most -/
def Op.size : Op → Nat
  | .colon => 1
  | .word _ => 4

theorem printed_size (hz : z.length = 8) : ((printed z).map Op.size).sum ≤ 39 := by
  match z, hz with
  | [a, b, c, d, e, f, g, k], _ =>
    revert a b c d e f g k
    decide +kernel

theorem length_opsText (hws : ∀ w ∈ ws, w < 65536) (ops : List Op) :
    (opsText ws ops).length ≤ (ops.map Op.size).sum := by
  induction ops with
  | nil => exact Nat.zero_le _
  | cons op ops ih =>
    have hop : (op.text ws).length ≤ op.size := by
      cases op with
      | colon => exact Nat.le_refl _
      | word i =>
        have hw : ws.getD i 0 < 65536 := by
          rw [List.getD_eq_getElem?_getD]
          cases hi : ws[i]? with
          | none => decide
          | some w => exact hws w (List.mem_of_getElem? hi)
        exact printNat_length (k := 3) hw
    show (op.text ws ++ opsText ws ops).length ≤ op.size + (ops.map Op.size).sum
    rw [List.length_append]
    omega

theorem opsText_append (ops ops' : List Op) :
    opsText ws (ops ++ ops') = opsText ws ops ++ opsText ws ops' := List.flatMap_append

theorem opsText_join (is : List Nat) : opsText ws (joinOps is) =
    [58].intercalate (is.map fun i => printNat 16 (ws.getD i 0)) := by
  unfold joinOps
  induction is with
  | nil => rfl
  | cons i is ih =>
    by_cases hn : is = []
    · subst hn
      simp [opsText, Op.text]
    · rw [List.map_cons, List.map_cons, List.intercalate_cons_of_ne_nil (by simpa using hn),
        List.intercalate_cons_of_ne_nil (by simpa using hn), List.append_assoc, opsText_append,
        opsText_append, ih, List.append_assoc]
      simp [opsText, Op.text]

theorem opsText_range (h : i + n ≤ ws.length) : opsText ws (joinOps (List.range' i n)) =
    [58].intercalate (Inet6.hex ((ws.drop i).take n)) := by
  have hwords : (List.range' i n).map (fun i => ws.getD i 0) = (ws.drop i).take n := by
    apply List.ext_getElem
    · rw [List.length_map, List.length_range', List.length_take, List.length_drop]
      omega
    · intro k h1 h2
      rw [List.length_map, List.length_range'] at h1
      rw [List.getElem_map, List.getElem_range', List.getElem_take, List.getElem_drop,
        List.getD_eq_getElem?_getD, Nat.one_mul, List.getElem?_eq_getElem (by omega),
        Option.getD_some]
  rw [opsText_join, ← hwords]
  unfold Inet6.hex
  rw [List.map_map]
  rfl

theorem opsText_colons (h : i ≤ ws.length) : opsText ws (colonOps i ops) =
    [58].intercalate (Inet6.hex (ws.take i)) ++ ([58, 58] ++ opsText ws ops) := by
  unfold colonOps
  rw [opsText_append, opsText_range (by omega), List.drop_zero]
  rfl

theorem length_zeros (ws : List Nat) : (zeros ws).length = ws.length := List.length_map _

theorem zero_words (h : ((zeros ws).drop i).take n = List.replicate n true) :
    (ws.drop i).take n = List.replicate n 0 := by
  unfold zeros at h
  rw [← List.map_drop, ← List.map_take, List.eq_replicate_iff, List.length_map] at h
  rw [List.eq_replicate_iff]
  refine ⟨h.1, fun w hw => ?_⟩
  simpa using h.2 _ (List.mem_map_of_mem hw)

/-- the text of a kept pattern -/
theorem pton6_printed (hlen : ws.length = 8) (hws : ∀ w ∈ ws, w < 65536)
    (h : Kept (zeros ws)) : pton6 (opsText ws (printed (zeros ws))) =
      some (some (ws.flatMap Inet6.wordBytes)) := by
  obtain ⟨-, hops | ⟨i, n, hpos, hin, hzero, hops⟩⟩ :=
    kept_ops (by rw [length_zeros, hlen]) h
  · rw [hops, opsText_range (by omega), List.drop_zero, List.take_of_length_le (by omega)]
    exact pton6_words hws hlen
  · have hback : (ws.drop (i + n)).take (8 - (i + n)) = ws.drop (i + n) :=
      List.take_of_length_le (by rw [List.length_drop]; omega)
    have hcount : 8 - ((ws.take i).length + (ws.drop (i + n)).length) = n := by
      rw [List.length_take, List.length_drop]
      omega
    have hsplit : ws.take i ++ List.replicate n 0 ++ ws.drop (i + n) = ws := by
      rw [← zero_words hzero, ← List.drop_drop, List.append_assoc, List.take_append_drop,
        List.take_append_drop]
    rw [hops, opsText_colons (by omega), opsText_range (by omega), hback]
    have hread := pton6_compress (l := ws.take i) (r := ws.drop (i + n))
      (fun w hw => hws w (List.mem_of_mem_take hw)) (fun w hw => hws w (List.mem_of_mem_drop hw))
      (fun h => by
        have := congrArg List.length h
        rw [List.length_drop, List.length_nil] at this
        omega)
      (by rw [List.length_take, List.length_drop]; omega)
    rw [hcount, hsplit] at hread
    exact hread

/-- the text of another one is not read, or it is not ended -/
theorem pton6_not_kept (hlen : ws.length = 8) (hws : ∀ w ∈ ws, w < 65536)
    (h : ¬ Kept (zeros ws)) : (printed (zeros ws)).getLast? = some .colon ∨
      ∀ b, pton6 (opsText ws (printed (zeros ws))) ≠ some (some b) := by
  refine (not_kept_ops (by rw [length_zeros, hlen]) h).imp_right ?_
  rintro ⟨i, hi, j, hj, hij, rest, hops⟩ b
  refine twice_none (l := ws.take i) (r := (ws.drop (i + 1)).take (j - (i + 1)))
    (t := opsText ws rest) (fun w hw => hws w (List.mem_of_mem_take hw))
    (fun w hw => hws w (List.mem_of_mem_drop (List.mem_of_mem_take hw))) ?_ ?_
    (digits_opsText ws _) b
  · intro h
    have := congrArg List.length h
    rw [List.length_take, List.length_drop, List.length_nil] at this
    omega
  · rw [← hops, opsText_append, opsText_colons (by omega), opsText_append, opsText_range (by omega)]
    unfold Inet6.compress
    simp only [List.append_assoc]
    rfl

end

/-! ## all addresses -/

section
variable {INET6_ADDRSTRLEN : Nat} {dst : Bytes}

theorem length_v4Text (x : InAddr) : (v4Text x).length ≤ 15 := by
  rw [v4Text_eq]
  exact Inet6.length_v4Text x

theorem readBack4_eq (x : InAddr) (hdst : 16 ≤ dst.length) :
    readBack4 x dst = some (some x.octets) := by
  have hlen := length_v4Text x
  unfold readBack4 ntop4
  rw [if_neg (by omega), start_wrote (by omega), v4_wrote hdst (by rw [List.length_nil]; omega),
    List.nil_append, Option.bind_some, readString_wrote (v4Text_nonzero x), Option.bind_some, pton4_ntop4]

theorem embedded_eq (ws : List Nat) (maxpos : Int) (hL : 46 ≤ INET6_ADDRSTRLEN)
    (hdst : INET6_ADDRSTRLEN ≤ dst.length) :
    Dst.embedded INET6_ADDRSTRLEN ws maxpos ⟨dst, 0⟩ = some (wrote dst
      (58 :: 58 :: ((if maxpos = 4 then ascii "ffff:" else []) ++ v4Text (Inet6.v4Of ws))) 0).dst := by
  have htext := length_v4Text (Inet6.v4Of ws)
  have hffff : (ascii "ffff:").length = 5 := rfl
  unfold Dst.embedded
  rw [start_wrote (by omega), put_wrote (by rw [List.length_nil]; omega)]
  rw [Option.bind_some, put_wrote (by simp; omega), Option.bind_some]
  by_cases h4 : maxpos = 4
  · rw [if_pos h4, if_pos h4, print_wrote (by omega) (by simp; omega)]
    show Dst.v4 _ (INET6_ADDRSTRLEN - 7) _ = _
    rw [v4_wrote (by omega) (by simp; omega)]
    rfl
  · rw [if_neg h4, if_neg h4]
    show Dst.v4 _ (INET6_ADDRSTRLEN - 2) _ = _
    rw [v4_wrote (by omega) (by simp; omega)]
    rfl

theorem readBack6_embedded (x : In6Addr) (hL : 46 ≤ INET6_ADDRSTRLEN)
    (hdst : INET6_ADDRSTRLEN ≤ dst.length)
    (hv4 : embeds (marks (zeros (Inet6.words x.s6_addr))) (Inet6.words x.s6_addr)) :
    readBack6 INET6_ADDRSTRLEN x dst = some (some x.s6_addr) := by
  obtain ⟨hbytes, hlen, hlt⟩ := Inet6.words_bytes (n := 8) x.length_eq
  have hz := (length_zeros (Inet6.words x.s6_addr)).trans hlen
  unfold readBack6 ntop6
  rw [if_neg (by omega)]
  dsimp only
  rw [if_pos hv4, embedded_eq _ _ hL hdst, Option.bind_some, readString_wrote, Option.bind_some]
  · generalize Inet6.words x.s6_addr = ws at *
    have hwords := Inet6.v4Words_v4Of hlen hlt
    have hsplit := List.take_append_drop 6 ws
    rcases hv4.2 with h5 | ⟨h4, hword⟩
    · have hfront := zero_words (i := 0) ((marks_v4 hz hv4.1).1 h5).2
      rw [List.drop_zero] at hfront
      rw [h5, if_neg (by decide), List.nil_append, pton6_v4, hwords, ← hfront, hsplit, hbytes]
    · have hfront := zero_words (i := 0) ((marks_v4 hz hv4.1).2 h4).2
      have hsix : ws.take 6 = List.replicate 5 0 ++ [65535] := by
        rw [List.drop_zero] at hfront
        rw [List.take_add_one, hfront, ← hword, List.getD_eq_getElem?_getD,
          List.getElem?_eq_getElem (by omega)]
        rfl
      rw [h4, if_pos rfl, pton6_mapped, hwords, List.append_cons, ← hsix, hsplit, hbytes]
  · simp only [List.forall_mem_cons, List.forall_mem_append]
    refine ⟨by decide, by decide, ?_, v4Text_nonzero _⟩
    split
    · rw [show ascii "ffff:" = [102, 102, 102, 102, 58] from rfl]
      simp [notNul]
    · exact List.forall_mem_nil _

theorem readBack6_printed (x : In6Addr) (hL : 46 ≤ INET6_ADDRSTRLEN)
    (hdst : INET6_ADDRSTRLEN ≤ dst.length)
    (hv4 : ¬ embeds (marks (zeros (Inet6.words x.s6_addr))) (Inet6.words x.s6_addr)) :
    ∃ text ops, ops = printed (zeros (Inet6.words x.s6_addr)) ∧
      text = opsText (Inet6.words x.s6_addr) ops ∧ text.length ≤ 39 ∧ Digits text ∧
      readBack6 INET6_ADDRSTRLEN x dst =
        (readString (wrote dst text (endByte dst ops text.length)).dst).bind pton6 := by
  obtain ⟨-, hlen, hlt⟩ := Inet6.words_bytes (n := 8) x.length_eq
  have hz := (length_zeros (Inet6.words x.s6_addr)).trans hlen
  have hsize := (length_opsText hlt (printed (zeros (Inet6.words x.s6_addr)))).trans (printed_size hz)
  refine ⟨_, _, rfl, rfl, hsize, digits_opsText _ _, ?_⟩
  unfold readBack6 ntop6
  rw [if_neg (by omega)]
  dsimp only
  rw [if_neg hv4]
  exact congrArg (fun d : Option Dst => ((d.map Dst.dst).bind readString).bind pton6)
    (run_ops hdst (lt_of_le_of_lt hsize (by omega)))

/-- **Inet texts.**  Every IPv4 address is read back, and an IPv6 address is from each buffer if and
only if its pattern of zeros is kept. -/
theorem inet_text (INET6_ADDRSTRLEN : Nat) (hL : 46 ≤ INET6_ADDRSTRLEN) :
    (∀ (x : InAddr) (dst : Bytes), 16 ≤ dst.length → readBack4 x dst = some (some x.octets)) ∧
      ∀ x : In6Addr, (∀ dst : Bytes, INET6_ADDRSTRLEN ≤ dst.length →
        readBack6 INET6_ADDRSTRLEN x dst = some (some x.s6_addr)) ↔
          Kept (zeros (Inet6.words x.s6_addr)) := by
  refine ⟨fun x dst hdst => readBack4_eq x hdst, fun x => ?_⟩
  obtain ⟨hbytes, hlen, hlt⟩ := Inet6.words_bytes (n := 8) x.length_eq
  have hz := (length_zeros (Inet6.words x.s6_addr)).trans hlen
  by_cases hv4 : embeds (marks (zeros (Inet6.words x.s6_addr))) (Inet6.words x.s6_addr)
  · refine iff_of_true (fun dst hdst => readBack6_embedded x hL hdst hv4) ?_
    rcases hv4.2 with h5 | ⟨h4, -⟩
    · exact ((marks_v4 hz hv4.1).1 h5).1
    · exact ((marks_v4 hz hv4.1).2 h4).1
  constructor
  · intro hall
    by_contra hkept
    rcases pton6_not_kept hlen hlt hkept with hcolon | hnone
    · -- a buffer of `x` shows that there is no NUL
      have hfull : INET6_ADDRSTRLEN ≤ (List.replicate INET6_ADDRSTRLEN (120 : UInt8)).length := by
        rw [List.length_replicate]
      obtain ⟨text, ops, rfl, -, hsize, hdigits, hread⟩ := readBack6_printed x hL hfull hv4
      have hend : endByte (List.replicate INET6_ADDRSTRLEN 120)
          (printed (zeros (Inet6.words x.s6_addr))) text.length = 120 := by
        unfold endByte
        rw [hcolon]
        dsimp only
        rw [List.getD_eq_getElem?_getD, List.getElem?_replicate_of_lt (by omega)]
        rfl
      rw [hall _ hfull, hend] at hread
      have hmem := read_x hdigits.nonzero
        ((List.replicate INET6_ADDRSTRLEN 120).drop (text.length + 1))
      unfold wrote at hread
      rw [← hread] at hmem
      simp at hmem
    · have hfull : INET6_ADDRSTRLEN ≤ (List.replicate INET6_ADDRSTRLEN (0 : UInt8)).length := by
        rw [List.length_replicate]
      obtain ⟨text, ops, rfl, rfl, hsize, hdigits, hread⟩ := readBack6_printed x hL hfull hv4
      have hend : ∀ n, endByte (List.replicate INET6_ADDRSTRLEN 0)
          (printed (zeros (Inet6.words x.s6_addr))) n = 0 := by
        intro n
        unfold endByte
        split
        · rfl
        · rw [List.getD_eq_getElem?_getD, List.getElem?_replicate]
          split <;> rfl
      rw [hall _ hfull, hend, readString_wrote hdigits.nonzero,
        Option.bind_some] at hread
      exact hnone _ hread.symm
  · intro hkept dst hdst
    obtain ⟨text, ops, rfl, rfl, hsize, hdigits, hread⟩ := readBack6_printed x hL hdst hv4
    have hend : ∀ n, endByte dst (printed (zeros (Inet6.words x.s6_addr))) n = 0 := by
      intro n
      unfold endByte
      rw [(kept_ops hz hkept).1]
    rw [hread, hend, readString_wrote hdigits.nonzero, Option.bind_some,
      pton6_printed hlen hlt hkept, hbytes]

theorem inet_text_documentation : readBack6 65
    ⟨[32, 1, 13, 184, 0, 0, 0, 0, 0, 0, 0, 0, 0, 0, 0, 1], rfl⟩ (List.replicate 65 120) =
      some (some [32, 1, 13, 184, 0, 0, 0, 0, 0, 0, 0, 0, 0, 0, 0, 1]) :=
  ((inet_text 65 (by decide)).2 _).mpr (by decide +kernel) _ (by decide)

/-- `1::` in a buffer of `x`, and `1:0:2:0:3:4:5:6` -/
theorem not_inet_text :
    readBack6 65 ⟨[0, 1, 0, 0, 0, 0, 0, 0, 0, 0, 0, 0, 0, 0, 0, 0], rfl⟩
        (List.replicate 64 120 ++ [0]) = some none ∧
      readBack6 65 ⟨[0, 1, 0, 0, 0, 2, 0, 0, 0, 3, 0, 4, 0, 5, 0, 6], rfl⟩
        (List.replicate 65 0) = some none := by
  decide +kernel

end

end InetText
