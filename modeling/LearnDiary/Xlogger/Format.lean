import LearnDiary.Comm.StringCast
import LearnDiary.Lib.Loop
import Mathlib.Data.List.Infix

/-!
# `DoTypeSafeFormat` (comm/xlogger/xlogger.h)

`XMessage` and `XLogger` have the same loop with other answers to a directive that does not fit; a
`Kind` holds them.  `block` is the memory from `_format` on, `args` what the caller supplies, `beyond`
what lies behind the array of 16 slots.  The loop keeps the list of the slots and of the characters
it reads.

* `turn_cases`       an iteration takes one piece of the format;
* `returns_of_fits`  where the loop stays inside the array, and what it appends;
* `fits_of_returns`  it stays inside nowhere else;
* `format_iff`       the two together.
-/

namespace Xlogger
open Loop StringCast

inductive TLogLevel where
  | kLevelVerbose
  | kLevelDebug
  | kLevelInfo
  | kLevelWarn
  | kLevelError
  | kLevelFatal
  | kLevelNone
deriving DecidableEq

structure XMessage where
  m_message : Bytes

/-- `level` is that of `m_info` -/
structure XLogger where
  level : TLogLevel
  m_message : Bytes

/-- a slot: a null pointer, or what `str()` of the argument returns -/
abbrev Slot := Option (Option Bytes)

/-- what one of the classes appends -/
structure Kind (O : Type) where
  m_message : O → Bytes
  append : O → Bytes → O
  nullStr : O → Nat → Option O
  nullArg : O → Nat → Option O
  notFit : O → UInt8 → Option O

def XMessage.append (m : XMessage) (text : Bytes) : XMessage := ⟨m.m_message ++ text⟩

def XLogger.append (m : XLogger) (text : Bytes) : XLogger := { m with m_message := m.m_message ++ text }

def xMessage : Kind XMessage where
  m_message := XMessage.m_message
  append := XMessage.append
  nullStr m _ := some (m.append (ascii "(null)"))
  nullArg m _ := some m
  notFit m _ := some m

/-- the complaint about `_args[argIndex]` -/
def complain (m : XLogger) (argIndex : Nat) (what : Bytes) : Option XLogger :=
  (stringCast .int argIndex 10).map fun index =>
    { level := .kLevelFatal
      m_message := m.m_message ++ ascii "\x7b!!! void XLogger::DoTypeSafeFormat: _args[" ++ index ++
        what }

def xLogger : Kind XLogger where
  m_message := XLogger.m_message
  append := XLogger.append
  nullStr m argIndex := complain m argIndex (ascii "]->str() == NULL !!!\x7d")
  nullArg m argIndex := complain m argIndex (ascii "] == NULL !!!\x7d")
  notFit m nextch := some
    { level := .kLevelFatal
      m_message := m.m_message ++ ascii "\x7b!!! void XLogger::DoTypeSafeFormat: %" ++ [nextch] ++
        ascii " not fit mode !!!\x7d" }

/-- `current` as an offset, `aborted` after an assertion that failed -/
structure Scan (O : Type) where
  current : Nat := 0
  count : Nat := 0
  obj : O
  slots : List Nat := []
  chars : List Nat := []
  aborted : Bool := false

/-- what a character and its successor stand for -/
inductive Piece where
  | plain (c : UInt8)
  /-- `%_`, or `%0` to `%9` -/
  | arg (digit : Option Nat)
  | percent
  | stray (nextch : UInt8)

/-- the character behind a `%` -/
def directive (nextch : UInt8) : Piece :=
  if (48 ≤ nextch ∧ nextch ≤ 57) ∨ nextch = 95 then
    .arg (if nextch ≠ 95 then some (nextch.toNat - 48) else none)
  else if nextch = 37 then .percent
  else .stray nextch

def Piece.width : Piece → Nat
  | .plain _ | .stray _ => 1
  | .arg _ | .percent => 2

section
variable {O : Type} (K : Kind O) (ndebug : Bool) (block : Bytes) (args : List (Option Bytes))
  (beyond : Nat → Slot)

/-- `_args[i]`: the array has 16 slots, those without an argument are null -/
def slotAt (i : Nat) : Slot := if i < 16 then args[i]? else beyond i

/-- `count++; current += 2;` where `count` is an `int` -/
def advance (s : Scan O) : Turn (Scan O) :=
  if s.count + 1 ≤ 2147483647 then .again { s with count := s.count + 1, current := s.current + 2 }
  else .wild

/-- the complaint and `assert(false)` -/
def failed (obj : Option O) (s : Scan O) (next : Scan O → Turn (Scan O)) : Turn (Scan O) :=
  match obj with
  | none => .wild
  | some obj =>
    if ndebug then next { s with obj := obj } else .ret { s with obj := obj, aborted := true }

def argument (argIndex : Nat) (s : Scan O) : Turn (Scan O) :=
  let s := { s with slots := s.slots ++ [argIndex] }
  match slotAt args beyond argIndex with
  | some (some str) => advance { s with obj := K.append s.obj (cstr str) }
  | some none => failed ndebug (K.nullStr s.obj argIndex) s advance
  | none => failed ndebug (K.nullArg s.obj argIndex) s advance

/-- what an iteration does with a piece -/
def act (p : Piece) (s : Scan O) : Turn (Scan O) :=
  match p with
  | .plain c => .again { s with obj := K.append s.obj [c], current := s.current + 1 }
  | .arg digit => argument K ndebug args beyond (digit.getD s.count) s
  | .percent => .again { s with obj := K.append s.obj [37], current := s.current + 2 }
  | .stray nextch =>
    failed ndebug (K.notFit s.obj nextch) { s with current := s.current + 1 } .again

/-- one iteration of `while ('\0' != *current)` -/
def turn (s : Scan O) : Turn (Scan O) :=
  match block[s.current]? with
  | none => .wild
  | some c =>
    if c = 0 then .ret { s with chars := s.chars ++ [s.current] }
    else if c ≠ 37 then
      act K ndebug args beyond (.plain c) { s with chars := s.chars ++ [s.current] }
    else
      match block[s.current + 1]? with
      | none => .wild
      | some nextch =>
        act K ndebug args beyond (directive nextch)
          { s with chars := s.chars ++ [s.current, s.current + 1] }

/-- `DoTypeSafeFormat` of `obj` is left in `t` -/
def DoTypeSafeFormat (obj : O) (t : Scan O) : Prop :=
  Returns (turn K ndebug block args beyond) { obj := obj } t

end

/-- `XMessage::DoTypeSafeFormat` -/
def XMessage.doTypeSafeFormat (ndebug : Bool) (block : Bytes) (args : List (Option Bytes))
    (beyond : Nat → Slot) : XMessage → Scan XMessage → Prop :=
  DoTypeSafeFormat xMessage ndebug block args beyond

/-- `XLogger::DoTypeSafeFormat` -/
def XLogger.doTypeSafeFormat (ndebug : Bool) (block : Bytes) (args : List (Option Bytes))
    (beyond : Nat → Slot) : XLogger → Scan XLogger → Prop :=
  DoTypeSafeFormat xLogger ndebug block args beyond

/-! ## the pieces of a format -/

def pieces : Bytes → List Piece
  | [] => []
  | [c] => if c ≠ 37 then [.plain c] else [directive 0]
  | c :: d :: t =>
    if c ≠ 37 then .plain c :: pieces (d :: t)
    else if (directive d).width = 1 then directive d :: pieces (d :: t)
    else directive d :: pieces t

def given (args : List (Option Bytes)) (i : Nat) : Bool := (args[i]?.bind id).isSome

/-- every `%_` that is reached has fewer than 16 directives in front of it, and `count` stays in the
range of an `int`; with assertions the format ends where one fails -/
def Fits (ndebug : Bool) (args : List (Option Bytes)) : Nat → List Piece → Prop
  | _, [] => True
  | n, .plain _ :: ps => Fits ndebug args n ps
  | n, .percent :: ps => Fits ndebug args n ps
  | n, .stray _ :: ps => ndebug = true → Fits ndebug args n ps
  | n, .arg digit :: ps =>
    (digit = none → n < 16) ∧
      (ndebug = true ∨ given args (digit.getD n) = true →
        n + 1 ≤ 2147483647 ∧ Fits ndebug args (n + 1) ps)

instance decidableFits (ndebug : Bool) (args : List (Option Bytes)) :
    (n : Nat) → (ps : List Piece) → Decidable (Fits ndebug args n ps)
  | _, [] => inferInstanceAs (Decidable True)
  | n, .plain _ :: ps => decidableFits ndebug args n ps
  | n, .percent :: ps => decidableFits ndebug args n ps
  | n, .stray _ :: ps =>
    have := decidableFits ndebug args n ps
    inferInstanceAs (Decidable (ndebug = true → Fits ndebug args n ps))
  | n, .arg digit :: ps =>
    have := decidableFits ndebug args (n + 1) ps
    inferInstanceAs (Decidable ((digit = none → n < 16) ∧ (_ → _ ∧ _)))

/-- every directive is well formed and refers to a supplied argument that is not null -/
def Good (args : List (Option Bytes)) : Nat → List Piece → Prop
  | _, [] => True
  | n, .plain _ :: ps => Good args n ps
  | n, .percent :: ps => Good args n ps
  | _, .stray _ :: _ => False
  | n, .arg digit :: ps => given args (digit.getD n) = true ∧ Good args (n + 1) ps

def render (args : List (Option Bytes)) : Nat → List Piece → Bytes
  | _, [] => []
  | n, .plain c :: ps => c :: render args n ps
  | n, .percent :: ps => 37 :: render args n ps
  | n, .stray _ :: ps => render args n ps
  | n, .arg digit :: ps =>
    cstr ((args[digit.getD n]?.bind id).getD []) ++ render args (n + 1) ps

theorem directive_digit {c : UInt8} {d : Nat} (h : directive c = .arg (some d)) : d < 10 := by
  unfold directive at h
  split at h
  · rename_i hc
    split at h
    · rename_i hne
      cases h
      rcases hc with ⟨h1, h2⟩ | h1
      · have h3 : c.toNat ≤ 57 := h2
        omega
      · exact absurd h1 hne
    · cases h
  · split at h
    · cases h
    · cases h

/-! ## an iteration -/

section
variable {O : Type} {K : Kind O} {ndebug : Bool} {block : Bytes} {args : List (Option Bytes)}
  {beyond : Nat → Slot} {s t : Scan O} {w : Bytes}

/-- `w` is what is left of the format -/
structure At (block : Bytes) (current : Nat) (w : Bytes) : Prop where
  rest : ∃ r, block.drop current = w ++ 0 :: r
  clean : 0 ∉ w
  nul : current + w.length = (cstr block).length

theorem At.start (h : 0 ∈ block) : At block 0 (cstr block) where
  rest := by
    have hsplit : block = cstr block ++ block.dropWhile notNul :=
      List.takeWhile_append_dropWhile.symm
    cases hd : block.dropWhile notNul with
    | nil =>
      have hall := List.dropWhile_eq_nil_iff.mp hd 0 h
      exact absurd hall (by decide)
    | cons c r =>
      have hc : notNul c = false := by
        have := List.head?_dropWhile_not notNul block
        rw [hd] at this
        simpa using this
      have h0 : c = 0 := by simpa [notNul] using hc
      refine ⟨r, ?_⟩
      rw [List.drop_zero, ← h0, ← hd]
      exact hsplit
  clean := fun hmem => absurd (List.mem_takeWhile_imp hmem) (by decide)
  nul := Nat.zero_add _

theorem At.get {current i : Nat} (h : At block current w) (hi : i ≤ w.length) :
    block[current + i]? = some (w.getD i 0) := by
  obtain ⟨r, hr⟩ := h.rest
  rw [← List.getElem?_drop, hr]
  by_cases hlt : i < w.length
  · rw [List.getElem?_append_left hlt, List.getD_eq_getElem?_getD, List.getElem?_eq_getElem hlt]
    rfl
  · have he : i = w.length := by omega
    rw [List.getElem?_append_right (by omega), he, Nat.sub_self, List.getD_eq_getElem?_getD,
      List.getElem?_eq_none (Nat.le_refl _)]
    rfl

theorem At.skip {current : Nat} {u v : Bytes} (h : At block current (u ++ v)) :
    At block (current + u.length) v where
  rest := by
    obtain ⟨r, hr⟩ := h.rest
    refine ⟨r, ?_⟩
    rw [← List.drop_drop, hr, List.append_assoc, List.drop_left' rfl]
  clean := fun hmem => h.clean (List.mem_append_right u hmem)
  nul := by
    have := h.nul
    rw [List.length_append] at this
    omega

variable (K ndebug args beyond) in
/-- what an iteration reads, and the piece it takes -/
theorem turn_cases (h : At block s.current w) :
    (w = [] ∧ turn K ndebug block args beyond s = .ret { s with chars := s.chars ++ [s.current] }) ∨
    ∃ p w' l, pieces w = p :: pieces w' ∧ (∀ i ∈ l, i ≤ (cstr block).length) ∧
      turn K ndebug block args beyond s =
        act K ndebug args beyond p { s with chars := s.chars ++ l } ∧
      At block (s.current + p.width) w' ∧ ∀ d, p = .arg (some d) → d < 10 := by
  have hnul := h.nul
  cases w with
  | nil =>
    refine Or.inl ⟨rfl, ?_⟩
    have h0 : block[s.current]? = some 0 := h.get (Nat.zero_le 0)
    unfold turn
    rw [h0]
    rfl
  | cons c w =>
    have h0 : block[s.current]? = some c := h.get (Nat.zero_le _)
    have hc0 : c ≠ 0 := fun hc => h.clean (by rw [hc]; exact List.mem_cons_self)
    rw [List.length_cons] at hnul
    refine Or.inr ?_
    by_cases hc : c = 37
    · have h1 : block[s.current + 1]? = some (w.getD 0 0) := h.get (i := 1) (by simp)
      have hl : ∀ i ∈ [s.current, s.current + 1], i ≤ (cstr block).length := by
        intro i hi
        simp only [List.mem_cons, List.not_mem_nil, or_false] at hi
        omega
      have hturn : turn K ndebug block args beyond s = act K ndebug args beyond
          (directive (w.getD 0 0)) { s with chars := s.chars ++ [s.current, s.current + 1] } := by
        unfold turn
        simp only [h0, h1, hc, if_false, not_true_eq_false, ne_eq]
        rfl
      cases w with
      | nil =>
        refine ⟨directive 0, [], _, ?_, hl, hturn, h.skip (u := [c]), fun d hd => ?_⟩
        · simp only [pieces, hc, ne_eq, not_true_eq_false, if_false]
        · exact directive_digit hd
      | cons d w =>
        by_cases hw : (directive d).width = 1
        · refine ⟨directive d, d :: w, _, ?_, hl, hturn, ?_, fun d' hd => directive_digit hd⟩
          · simp only [pieces, hc, ne_eq, not_true_eq_false, if_false, hw, if_true]
          · rw [hw]
            exact h.skip (u := [c])
        · have hw2 : (directive d).width = 2 := by
            cases he : directive d with
            | plain c => rw [he] at hw; exact absurd rfl hw
            | stray c => rw [he] at hw; exact absurd rfl hw
            | arg digit => rfl
            | percent => rfl
          refine ⟨directive d, w, _, ?_, hl, hturn, ?_, fun d' hd => directive_digit hd⟩
          · simp only [pieces, hc, ne_eq, not_true_eq_false, if_false, hw]
          · rw [hw2]
            exact h.skip (u := [c, d])
    · refine ⟨.plain c, w, [s.current], ?_, ?_, ?_, h.skip (u := [c]), fun d hd => ?_⟩
      · cases w with
        | nil => simp only [pieces, hc, ne_eq, not_false_eq_true, if_true]
        | cons d w => simp only [pieces, hc, ne_eq, not_false_eq_true, if_true]
      · intro i hi
        rw [List.mem_singleton.mp hi]
        omega
      · unfold turn
        simp only [h0, hc0, hc, if_false, not_false_eq_true, ne_eq, if_true]
      · cases hd

/-! ## runs of the loop -/

/-- the answers exist, and `append` appends -/
structure Kind.Lawful (K : Kind O) : Prop where
  nullStr : ∀ o i, i < 16 → ∃ o', K.nullStr o i = some o'
  nullArg : ∀ o i, i < 16 → ∃ o', K.nullArg o i = some o'
  notFit : ∀ o c, ∃ o', K.notFit o c = some o'
  append : ∀ o text, K.m_message (K.append o text) = K.m_message o ++ text

theorem complain_some (m : XLogger) {i : Nat} (hi : i < 16) (what : Bytes) :
    ∃ m', complain m i what = some m' := by
  have hmin : CInt.int.min = -2 ^ 31 := by decide
  have hmax : CInt.int.max = 2147483647 := by decide
  unfold complain
  rw [stringCast_eq (by omega) (by omega) (Or.inr (by omega))]
  exact ⟨_, rfl⟩

/-- the reads so far are in the array and not behind the terminator -/
def Inside (block : Bytes) (s : Scan O) : Prop :=
  (∀ i ∈ s.slots, i < 16) ∧ ∀ i ∈ s.chars, i ≤ (cstr block).length

variable (beyond) in
theorem slotAt_given {i : Nat} (hargs : args.length ≤ 16) (h : given args i = true) :
    ∃ str, slotAt args beyond i = some (some str) ∧ args[i]? = some (some str) ∧ i < 16 := by
  unfold given at h
  cases he : args[i]? with
  | none =>
    rw [he] at h
    cases h
  | some a =>
    rw [he] at h
    cases a with
    | none => cases h
    | some str =>
      have hi := (List.getElem?_eq_some_iff.mp he).1
      refine ⟨str, ?_, rfl, by omega⟩
      unfold slotAt
      rw [if_pos (by omega), he]

variable (beyond) in
theorem slotAt_not_given {i : Nat} (hi : i < 16) (h : ¬ given args i = true) :
    slotAt args beyond i = none ∨ slotAt args beyond i = some none := by
  unfold slotAt
  rw [if_pos hi]
  unfold given at h
  cases he : args[i]? with
  | none => exact Or.inl rfl
  | some a =>
    cases a with
    | none => exact Or.inr rfl
    | some str =>
      rw [he] at h
      exact absurd rfl h

theorem advance_again (h : s.count + 1 ≤ 2147483647) :
    advance s = .again { s with count := s.count + 1, current := s.current + 2 } := by
  unfold advance
  rw [if_pos h]

variable (ndebug beyond) in
theorem argument_cases (hK : K.Lawful) (hargs : args.length ≤ 16) {i : Nat} (hi : i < 16)
    (s : Scan O) :
    (∃ str, args[i]? = some (some str) ∧ given args i = true ∧
      argument K ndebug args beyond i s = advance
        { s with slots := s.slots ++ [i], obj := K.append s.obj (cstr str) }) ∨
    (given args i = false ∧ ∃ obj, argument K ndebug args beyond i s =
      if ndebug then advance { s with slots := s.slots ++ [i], obj := obj }
      else .ret { s with slots := s.slots ++ [i], obj := obj, aborted := true }) := by
  by_cases hg : given args i = true
  · obtain ⟨str, hslot, hget, -⟩ := slotAt_given beyond hargs hg
    refine Or.inl ⟨str, hget, hg, ?_⟩
    unfold argument
    rw [hslot]
  · refine Or.inr ⟨by simpa using hg, ?_⟩
    unfold argument
    rcases slotAt_not_given beyond hi hg with hslot | hslot
    · obtain ⟨obj, hobj⟩ := hK.nullArg s.obj i hi
      refine ⟨obj, ?_⟩
      simp only [hslot, hobj, failed]
    · obtain ⟨obj, hobj⟩ := hK.nullStr s.obj i hi
      refine ⟨obj, ?_⟩
      simp only [hslot, hobj, failed]

/-- a good format is done to its end, and appends what it denotes -/
def Appended (K : Kind O) (args : List (Option Bytes)) (ps : List Piece) (s t : Scan O) : Prop :=
  Good args s.count ps → s.aborted = false →
    t.aborted = false ∧ K.m_message t.obj = K.m_message s.obj ++ render args s.count ps

variable (beyond) in
theorem returns_of_fits (hK : K.Lawful) (hargs : args.length ≤ 16) (h : At block s.current w)
    (hfits : Fits ndebug args s.count (pieces w)) (hin : Inside block s) :
    ∃ t, Returns (turn K ndebug block args beyond) s t ∧ Inside block t ∧
      Appended K args (pieces w) s t := by
  generalize hps : pieces w = ps at hfits
  induction ps generalizing s w with
  | nil =>
    rcases turn_cases K ndebug args beyond h with
      ⟨hw, hturn⟩ | ⟨p, w', l, hpieces, -⟩
    · refine ⟨_, .ret hturn, ⟨hin.1, fun i hi => ?_⟩, fun _ hab => ⟨hab, ?_⟩⟩
      · have hnul := h.nul
        rcases List.mem_append.mp hi with hi | hi
        · exact hin.2 i hi
        · rw [List.mem_singleton.mp hi]
          omega
      · exact (List.append_nil _).symm
    · rw [hps] at hpieces
      cases hpieces
  | cons p ps ih =>
    rcases turn_cases K ndebug args beyond h with
      ⟨rfl, -⟩ | ⟨p', w', l, hpieces, hl, hturn, hat, hdigit⟩
    · cases hps
    rw [hps] at hpieces
    cases hpieces
    have hchars : ∀ i ∈ s.chars ++ l, i ≤ (cstr block).length := by
      intro i hi
      rcases List.mem_append.mp hi with hi | hi
      · exact hin.2 i hi
      · exact hl i hi
    have hslots : ∀ j, j < 16 → ∀ i ∈ s.slots ++ [j], i < 16 := by
      intro j hj i hi
      rcases List.mem_append.mp hi with hi | hi
      · exact hin.1 i hi
      · rwa [List.mem_singleton.mp hi]
    have next : ∀ s', turn K ndebug block args beyond s = .again s' →
        s'.current = s.current + p.width → Fits ndebug args s'.count (pieces w') →
        Inside block s' →
        (∀ t, Appended K args (pieces w') s' t → Appended K args (p :: pieces w') s t) →
        ∃ t, Returns (turn K ndebug block args beyond) s t ∧ Inside block t ∧
          Appended K args (p :: pieces w') s t := by
      intro s' he hcur hf hin' happ
      obtain ⟨t, ht, hint, h'⟩ := ih (s := s') (by rw [hcur]; exact hat) hin' rfl hf
      exact ⟨t, .again he ht, hint, happ t h'⟩
    cases p with
    | plain c =>
      refine next _ hturn rfl hfits ⟨hin.1, hchars⟩ fun t h' hgood hab => ?_
      obtain ⟨h1, h2⟩ := h' hgood hab
      refine ⟨h1, ?_⟩
      rw [h2, hK.append, List.append_assoc]
      rfl
    | percent =>
      refine next _ hturn rfl hfits ⟨hin.1, hchars⟩ fun t h' hgood hab => ?_
      obtain ⟨h1, h2⟩ := h' hgood hab
      refine ⟨h1, ?_⟩
      rw [h2, hK.append, List.append_assoc]
      rfl
    | stray c =>
      obtain ⟨obj, hobj⟩ := hK.notFit s.obj c
      simp only [act, failed, hobj] at hturn
      split at hturn
      · rename_i hnd
        exact next _ hturn rfl (hfits hnd) ⟨hin.1, hchars⟩ fun t _ hgood => hgood.elim
      · exact ⟨_, .ret hturn, ⟨hin.1, hchars⟩, fun hgood => hgood.elim⟩
    | arg digit =>
      obtain ⟨hlt, hrest⟩ := hfits
      have hi : digit.getD s.count < 16 := by
        cases digit with
        | none => exact hlt rfl
        | some d => exact Nat.lt_trans (hdigit d rfl) (by decide)
      simp only [act] at hturn
      rcases argument_cases ndebug beyond hK hargs hi
        { s with chars := s.chars ++ l } with ⟨str, hstr, hg, he⟩ | ⟨hg, obj, he⟩
      · obtain ⟨hmax, hf⟩ := hrest (Or.inr hg)
        refine next _ (hturn.trans (he.trans (advance_again hmax))) rfl hf ⟨hslots _ hi, hchars⟩
          fun t h' hgood hab => ?_
        obtain ⟨h1, h2⟩ := h' hgood.2 hab
        refine ⟨h1, ?_⟩
        have hr : render args s.count (.arg digit :: pieces w') =
            cstr str ++ render args (s.count + 1) (pieces w') := by
          show cstr ((args[digit.getD s.count]?.bind id).getD []) ++ _ = _
          rw [hstr]
          rfl
        rw [h2, hK.append, List.append_assoc, hr]
      · have hbad : ¬ Good args s.count (.arg digit :: pieces w') := fun hgood => by
          rw [hgood.1] at hg
          cases hg
        rw [he] at hturn
        split at hturn
        · rename_i hnd
          obtain ⟨hmax, hf⟩ := hrest (Or.inl hnd)
          exact next _ (hturn.trans (advance_again hmax)) rfl hf ⟨hslots _ hi, hchars⟩
            fun t _ hgood => absurd hgood hbad
        · exact ⟨_, .ret hturn, ⟨hslots _ hi, hchars⟩, fun hgood => absurd hgood hbad⟩

/-! ## the other direction -/

theorem advance_goes (h : (advance s).Goes t) :
    s.count + 1 ≤ 2147483647 ∧ t = { s with count := s.count + 1, current := s.current + 2 } := by
  unfold advance at h
  split at h
  · rename_i hmax
    exact ⟨hmax, h.of_again⟩
  · rcases h with h | h
    · cases h
    · cases h

theorem failed_slots {obj : Option O} {next : Scan O → Turn (Scan O)}
    (hnext : ∀ s t, (next s).Goes t → s.slots <+: t.slots) (h : (failed ndebug obj s next).Goes t) :
    s.slots <+: t.slots := by
  unfold failed at h
  cases obj with
  | none =>
    rcases h with h | h
    · cases h
    · cases h
  | some obj =>
    simp only at h
    split at h
    · have h' := hnext _ _ h
      exact h'
    · rw [h.of_ret]

theorem argument_slots {i : Nat} (h : (argument K ndebug args beyond i s).Goes t) :
    s.slots ++ [i] <+: t.slots := by
  have hadvance : ∀ s t : Scan O, (advance s).Goes t → s.slots <+: t.slots := by
    intro s t h
    rw [(advance_goes h).2]
  simp only [argument] at h
  split at h
  · exact hadvance _ _ h
  · exact failed_slots hadvance h
  · exact failed_slots hadvance h

theorem act_slots {p : Piece} (h : (act K ndebug args beyond p s).Goes t) : s.slots <+: t.slots := by
  cases p with
  | plain c =>
    rw [h.of_again]
  | percent =>
    rw [h.of_again]
  | stray c =>
    have h' := failed_slots (fun s t h => by rw [h.of_again]) h
    exact h'
  | arg digit => exact (List.prefix_append s.slots _).trans (argument_slots h)

theorem turn_slots (h : (turn K ndebug block args beyond s).Goes t) : s.slots <+: t.slots := by
  unfold turn at h
  split at h
  · rcases h with h | h
    · cases h
    · cases h
  · split at h
    · rw [h.of_ret]
    · split at h
      · have h' := act_slots h
        exact h'
      · split at h
        · rcases h with h | h
          · cases h
          · cases h
        · have h' := act_slots h
          exact h'

theorem returns_slots (h : Returns (turn K ndebug block args beyond) s t) : s.slots <+: t.slots := by
  induction h with
  | ret e => exact turn_slots (Or.inr e)
  | again e _ ih => exact (turn_slots (Or.inl e)).trans ih

/-- a loop that is left goes on from each of its iterations to the same end -/
theorem returns_goes (h : Returns (turn K ndebug block args beyond) s t) :
    ∃ u, (turn K ndebug block args beyond s).Goes u ∧ u.slots <+: t.slots := by
  cases h with
  | ret e => exact ⟨t, Or.inr e, List.prefix_refl _⟩
  | again e h => exact ⟨_, Or.inl e, returns_slots h⟩

theorem fits_of_returns (hK : K.Lawful) (hargs : args.length ≤ 16) (h : At block s.current w)
    (hr : Returns (turn K ndebug block args beyond) s t) (hin : ∀ i ∈ t.slots, i < 16) :
    Fits ndebug args s.count (pieces w) := by
  generalize hps : pieces w = ps
  induction ps generalizing s w with
  | nil => exact trivial
  | cons p ps ih =>
    rcases turn_cases K ndebug args beyond h with
      ⟨rfl, -⟩ | ⟨p', w', l, hpieces, -, hturn, hat, hdigit⟩
    · cases hps
    rw [hps] at hpieces
    cases hpieces
    have next : ∀ s', turn K ndebug block args beyond s = .again s' →
        s'.current = s.current + p.width → Fits ndebug args s'.count (pieces w') := by
      intro s' he hcur
      exact ih (by rw [hcur]; exact hat) (hr.from_reached (.step he (.refl _))) rfl
    obtain ⟨u, hu, hut⟩ := returns_goes hr
    rw [hturn] at hu
    cases p with
    | plain c =>
      have h' := next _ hturn rfl
      exact h'
    | percent =>
      have h' := next _ hturn rfl
      exact h'
    | stray c =>
      intro hnd
      obtain ⟨obj, hobj⟩ := hK.notFit s.obj c
      simp only [act, failed, hobj] at hturn
      rw [if_pos hnd] at hturn
      have h' := next _ hturn rfl
      exact h'
    | arg digit =>
      have hmem : digit.getD s.count ∈ t.slots :=
        ((argument_slots hu).trans hut).subset (List.mem_append_right _ List.mem_cons_self)
      have hi := hin _ hmem
      refine ⟨fun hd => by rw [hd] at hi; exact hi, fun hgo => ?_⟩
      simp only [act] at hturn hu
      have hadv : ∀ s' : Scan O, turn K ndebug block args beyond s = advance s' →
          (advance s').Goes u → s'.count = s.count → s'.current = s.current →
          s.count + 1 ≤ 2147483647 ∧ Fits ndebug args (s.count + 1) (pieces w') := by
        intro s' he hgoes hcount hcur
        have hmax := (advance_goes hgoes).1
        have hf := next _ (he.trans (advance_again hmax)) (congrArg (· + 2) hcur)
        rw [hcount] at hmax
        exact ⟨hmax, by rw [← hcount]; exact hf⟩
      rcases argument_cases ndebug beyond hK hargs hi
        { s with chars := s.chars ++ l } with ⟨str, -, -, he⟩ | ⟨hg, obj, he⟩
      · rw [he] at hu
        exact hadv _ (hturn.trans he) hu rfl rfl
      · rcases hgo with hnd | hg'
        · rw [if_pos hnd] at he
          rw [he] at hu
          exact hadv _ (hturn.trans he) hu rfl rfl
        · rw [hg] at hg'
          cases hg'

end

theorem xMessage_lawful : xMessage.Lawful where
  nullStr _ _ _ := ⟨_, rfl⟩
  nullArg _ _ _ := ⟨_, rfl⟩
  notFit _ _ := ⟨_, rfl⟩
  append _ _ := rfl

theorem xLogger_lawful : xLogger.Lawful where
  nullStr m _ hi := complain_some m hi _
  nullArg m _ hi := complain_some m hi _
  notFit _ _ := ⟨_, rfl⟩
  append _ _ := rfl

/-! ## both classes -/

/-- both loops end and read inside the array and the format, and a good format makes both append
the same -/
def Meets (ndebug : Bool) (block : Bytes) (args : List (Option Bytes)) (beyond : Nat → Slot)
    (m : XMessage) (x : XLogger) : Prop :=
  (∃ t, XMessage.doTypeSafeFormat ndebug block args beyond m t ∧ Inside block t) ∧
  (∃ t, XLogger.doTypeSafeFormat ndebug block args beyond x t ∧ Inside block t) ∧
  (Good args 0 (pieces (cstr block)) → ∃ text,
    (∃ t, XMessage.doTypeSafeFormat ndebug block args beyond m t ∧
      t.obj.m_message = m.m_message ++ text) ∧
    ∃ t, XLogger.doTypeSafeFormat ndebug block args beyond x t ∧
      t.obj.m_message = x.m_message ++ text)

theorem inside_start {O : Type} (block : Bytes) (obj : O) : Inside block { obj := obj } :=
  ⟨fun _ hi => absurd hi List.not_mem_nil, fun _ hi => absurd hi List.not_mem_nil⟩

/-- **The loops stay inside exactly for the formats that fit.** -/
theorem format_iff (ndebug : Bool) (block : Bytes) (args : List (Option Bytes))
    (beyond : Nat → Slot) (m : XMessage) (x : XLogger) (hnul : 0 ∈ block)
    (hargs : args.length ≤ 16) :
    Meets ndebug block args beyond m x ↔ Fits ndebug args 0 (pieces (cstr block)) := by
  have hat := At.start hnul
  constructor
  · rintro ⟨⟨t, ht, hin⟩, -, -⟩
    exact fits_of_returns (s := { obj := m }) xMessage_lawful hargs hat ht hin.1
  · intro hfits
    obtain ⟨t, ht, hin, happ⟩ := returns_of_fits (s := { obj := m }) beyond
      xMessage_lawful hargs hat hfits (inside_start block m)
    obtain ⟨u, hu, hinu, happu⟩ := returns_of_fits (s := { obj := x }) beyond
      xLogger_lawful hargs hat hfits (inside_start block x)
    refine ⟨⟨t, ht, hin⟩, ⟨u, hu, hinu⟩, fun hgood => ?_⟩
    exact ⟨_, ⟨t, ht, (happ hgood rfl).2⟩, ⟨u, hu, (happu hgood rfl).2⟩⟩

/-- the format `%_ %0%%` with one argument -/
theorem format_iff_one : Meets true [37, 95, 32, 37, 48, 37, 37, 0] [some [104, 105]]
    (fun _ => none) ⟨[]⟩ ⟨.kLevelInfo, []⟩ :=
  (format_iff true [37, 95, 32, 37, 48, 37, 37, 0] [some [104, 105]] (fun _ => none) ⟨[]⟩
    ⟨.kLevelInfo, []⟩ (by decide) (by decide)).mpr (by decide)

/-- **Seventeen `%_`**: with all 16 arguments supplied, slot 16 is read. -/
theorem format_seventeen :
    ¬ Meets true ((List.replicate 17 [37, 95]).flatten ++ [0]) (List.replicate 16 (some []))
      (fun _ => none) ⟨[]⟩ ⟨.kLevelInfo, []⟩ := by
  rintro ⟨⟨t, ht, hin⟩, -, -⟩
  have h0 : (0 : UInt8) ∈ (List.replicate 17 [37, 95]).flatten ++ [0] := by decide
  unfold XMessage.doTypeSafeFormat DoTypeSafeFormat at ht
  have hfits := fits_of_returns xMessage_lawful (by decide) (At.start h0) ht hin.1
  exact absurd hfits (by decide)

end Xlogger
