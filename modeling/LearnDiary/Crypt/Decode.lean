import LearnDiary.Crypt.Base64

/-!
# DecodeBase64 of any bytes (comm/crypt/ibase64.cc)

`char_to_base64` has 128 entries and is indexed by a byte as it comes, and every `=` at the end is
taken from the size, more of them than there are bytes as well.

* `decodeBlocks_iff`   the loop needs bytes below 128;
* `trim_eq_sub`        the size that is returned;
* `decodeBase64_iff`   when both are right.
-/

namespace Base64

section
variable {sSrc : Bytes}

theorem charToBase64_iff (c : UInt8) : (∃ v, charToBase64 c = some v) ↔ c.toNat < 128 := by
  have hlen : initConversionTables.char_to_base64.length = 128 := by
    rw [char_to_base64_eq]
    rfl
  unfold charToBase64
  rw [← hlen]
  constructor
  · rintro ⟨v, hv⟩
    exact (List.getElem?_eq_some_iff.mp hv).1
  · intro h
    exact ⟨_, List.getElem?_eq_getElem h⟩

theorem charToBase64_none {c : UInt8} (h : ¬ c.toNat < 128) : charToBase64 c = none := by
  rw [← charToBase64_iff c] at h
  exact Option.eq_none_iff_forall_ne_some.mpr fun v hv => h ⟨v, hv⟩

theorem decodeBlock_cases {s : Cursor} (h : s.p_source + 4 ≤ sSrc.length) :
    (∃ w : Bytes, w.length = 3 ∧ decodeBlock sSrc s = some (s.wrote 4 w) ∧
      ∀ c ∈ (sSrc.drop s.p_source).take 4, c.toNat < 128) ∨
    (decodeBlock sSrc s = none ∧ ¬ ∀ c ∈ (sSrc.drop s.p_source).take 4, c.toNat < 128) := by
  have hfour : ((sSrc.drop s.p_source).take 4).length = 4 := by
    rw [List.length_take, List.length_drop]
    omega
  have hsplit := List.take_append_drop 4 (sSrc.drop s.p_source)
  obtain ⟨c₀, c₁, c₂, c₃, hb⟩ : ∃ c₀ c₁ c₂ c₃,
      (sSrc.drop s.p_source).take 4 = [c₀, c₁, c₂, c₃] := by
    match (sSrc.drop s.p_source).take 4, hfour with
    | [c₀, c₁, c₂, c₃], _ => exact ⟨c₀, c₁, c₂, c₃, rfl⟩
  rw [hb] at hsplit ⊢
  rw [decodeBlock_bind hsplit.symm]
  by_cases hall : ∀ c ∈ [c₀, c₁, c₂, c₃], c.toNat < 128
  · have entry : ∀ c ∈ [c₀, c₁, c₂, c₃], ∃ v, charToBase64 c = some v :=
      fun c hc => (charToBase64_iff c).mpr (hall c hc)
    obtain ⟨v₀, h0⟩ := entry c₀ (by simp)
    obtain ⟨v₁, h1⟩ := entry c₁ (by simp)
    obtain ⟨v₂, h2⟩ := entry c₂ (by simp)
    obtain ⟨v₃, h3⟩ := entry c₃ (by simp)
    left
    rw [h0, h1, h2, h3]
    exact ⟨_, rfl, rfl, hall⟩
  · right
    refine ⟨?_, hall⟩
    simp only [not_forall] at hall
    obtain ⟨c, hc, hbig⟩ := hall
    have hnone := charToBase64_none hbig
    -- the first entry that is missing ends the round
    simp only [List.mem_cons, List.not_mem_nil, or_false] at hc
    rcases hc with rfl | rfl | rfl | rfl <;>
      simp only [hnone, Option.bind_none, Option.bind_fun_none]

theorem decodeBlocks_iff {s : Cursor} {nb_block : Nat}
    (h : s.p_source + 4 * nb_block ≤ sSrc.length) :
    (∃ s', decodeBlocks sSrc nb_block s = some s') ↔
      ∀ c ∈ (sSrc.drop s.p_source).take (4 * nb_block), c.toNat < 128 := by
  induction nb_block generalizing s with
  | zero => simp [decodeBlocks]
  | succ nb_block ih =>
    have htake : (sSrc.drop s.p_source).take (4 * (nb_block + 1)) =
        (sSrc.drop s.p_source).take 4 ++ (sSrc.drop (s.p_source + 4)).take (4 * nb_block) := by
      rw [Nat.mul_succ, Nat.add_comm, List.take_add, List.drop_drop]
    rw [htake, decodeBlocks, List.forall_mem_append]
    have hin : s.p_source + 4 ≤ sSrc.length := by omega
    rcases decodeBlock_cases hin with ⟨w, -, hs, hall⟩ | ⟨hs, hall⟩
    · rw [hs, Option.bind_some, ih (s := s.wrote 4 w) (by
        show s.p_source + 4 + 4 * nb_block ≤ _
        omega)]
      exact ⟨fun hrest => ⟨hall, hrest⟩, fun hboth => hboth.2⟩
    · rw [hs]
      refine iff_of_false ?_ fun hboth => hall hboth.1
      rintro ⟨s', hnone⟩
      cases hnone

theorem decodeBlocks_frame {s s' : Cursor} {nb_block : Nat}
    (h : s.p_source + 4 * nb_block ≤ sSrc.length)
    (hs : decodeBlocks sSrc nb_block s = some s') {i : Nat} (hi : s.p_target + 3 * nb_block ≤ i) :
    s'.sTarget i = s.sTarget i := by
  induction nb_block generalizing s with
  | zero =>
    cases hs
    rfl
  | succ nb_block ih =>
    have hin : s.p_source + 4 ≤ sSrc.length := by omega
    rw [decodeBlocks] at hs
    rcases decodeBlock_cases hin with ⟨w, hw, he, -⟩ | ⟨he, -⟩
    · rw [he, Option.bind_some] at hs
      have hrest : s'.sTarget i = (s.wrote 4 w).sTarget i :=
        ih (s := s.wrote 4 w) (by show s.p_source + 4 + 4 * nb_block ≤ _; omega) hs
          (by show s.p_target + w.length + 3 * nb_block ≤ i; omega)
      rw [hrest]
      exact store_above (by omega)
    · rw [he] at hs
      cases hs

/-- how many `=` stand at the end -/
def trailing (l : Bytes) : Nat := (l.reverse.takeWhile (· = 61)).length

theorem trim_eq_sub {n : Nat} (hn : n ≤ sSrc.length) (t : Int) :
    trim sSrc n t = some (t - trailing (sSrc.take n)) := by
  induction n generalizing t with
  | zero =>
    show some t = some (t - (0 : Nat))
    rw [Int.natCast_zero, Int.sub_zero]
  | succ n ih =>
    have hlast : sSrc.take (n + 1) = sSrc.take n ++ [sSrc[n]] := List.take_succ_eq_append_getElem hn
    rw [trim, List.getElem?_eq_getElem hn, Option.bind_some, hlast]
    unfold trailing
    rw [List.reverse_append, List.reverse_singleton, List.singleton_append, List.takeWhile_cons]
    by_cases hc : sSrc[n] = 61
    · rw [if_pos hc, if_pos (by rwa [decide_eq_true_iff]), ih (by omega), List.length_cons]
      unfold trailing
      congr 1
      push_cast
      omega
    · rw [if_neg hc, if_neg (by rwa [decide_eq_true_iff]), List.length_nil]
      simp

theorem decodeBase64_run (hlen : sSrc.length ≠ 0) (m : Memory) :
    decodeBase64 sSrc m sSrc.length = (int (sSrc.length / 4 * 3)).bind fun target_size =>
      (decodeBlocks sSrc (sSrc.length / 4) ⟨0, 0, Function.update m target_size 0⟩).map fun s =>
        (target_size - (trailing sSrc : Int), s.sTarget) := by
  unfold decodeBase64
  rw [if_neg hlen]
  show Option.bind _ _ = _
  congr 1
  funext target_size
  rw [Option.map_eq_bind]
  show Option.bind _ _ = _
  congr 1
  funext s
  rw [trim_eq_sub le_rfl, List.take_length]
  rfl

/-- no size that is returned is greater than the blocks -/
theorem decodeBase64_le {m m' : Memory} {size : Int}
    (h : decodeBase64 sSrc m sSrc.length = some (size, m')) :
    size ≤ 3 * (sSrc.length / 4 : Nat) := by
  by_cases hlen : sSrc.length = 0
  · unfold decodeBase64 at h
    rw [if_pos hlen] at h
    cases h
    omega
  · rw [decodeBase64_run hlen] at h
    obtain ⟨target_size, hint, h⟩ := Option.bind_eq_some_iff.mp h
    obtain ⟨s, -, he⟩ := Option.map_eq_some_iff.mp h
    cases he
    unfold int at hint
    split at hint
    · cases hint
      omega
    · cases hint

/-- the result for `n` bytes: a size in the bounds, a NUL, and nothing written behind it -/
structure Decoded (n : Nat) (m m' : Memory) (size : Int) : Prop where
  nonneg : 0 ≤ size
  le : size ≤ 3 * (n / 4 : Nat)
  nul : n ≠ 0 → m' (3 * (n / 4)) = 0
  same : ∀ i > 3 * (n / 4), m' i = m i

/-- **`DecodeBase64` of any bytes**: it stays inside of the table and returns a size in the bounds
for the sources whose blocks have bytes below 128 only, with no more `=` at the end than bytes for
the blocks, and for no other. -/
theorem decodeBase64_iff (hsize : sSrc.length < 2 ^ 31) :
    (∀ m, ∃ size m', decodeBase64 sSrc m sSrc.length = some (size, m') ∧
      Decoded sSrc.length m m' size) ↔
    (∀ c ∈ sSrc.take (4 * (sSrc.length / 4)), c.toNat < 128) ∧
      trailing sSrc ≤ 3 * (sSrc.length / 4) := by
  by_cases hlen : sSrc.length = 0
  · have hnil := List.length_eq_zero_iff.mp hlen
    subst hnil
    refine iff_of_true (fun m => ⟨0, m, rfl, ?_⟩) ⟨fun c hc => (nomatch hc), Nat.zero_le _⟩
    exact ⟨le_rfl, le_rfl, fun h => absurd rfl h, fun _ _ => rfl⟩
  have hint : int (sSrc.length / 4 * 3) = some (3 * (sSrc.length / 4)) := by
    unfold int
    rw [if_pos (by omega), Nat.mul_comm]
  have hin : 0 + 4 * (sSrc.length / 4) ≤ sSrc.length := by omega
  have hrun : ∀ m, decodeBase64 sSrc m sSrc.length =
      (decodeBlocks sSrc (sSrc.length / 4)
        ⟨0, 0, Function.update m (3 * (sSrc.length / 4)) 0⟩).map fun s =>
          ((3 * (sSrc.length / 4) : Nat) - (trailing sSrc : Int), s.sTarget) := by
    intro m
    rw [decodeBase64_run hlen, hint]
    rfl
  constructor
  · intro h
    obtain ⟨size, m', he, hd⟩ := h fun _ => 0
    rw [hrun, Option.map_eq_some_iff] at he
    obtain ⟨s, hs, he⟩ := he
    cases he
    refine ⟨(decodeBlocks_iff hin).mp ⟨s, hs⟩, ?_⟩
    have := hd.nonneg
    omega
  · rintro ⟨hall, htrail⟩ m
    obtain ⟨s, hs⟩ := (decodeBlocks_iff (s := ⟨0, 0, Function.update m (3 * (sSrc.length / 4)) 0⟩)
      hin).mpr hall
    refine ⟨_, _, by rw [hrun, hs]; rfl, by omega, by omega, fun _ => ?_, fun i hi => ?_⟩
    · rw [decodeBlocks_frame hin hs (Nat.le_of_eq (Nat.zero_add _))]
      exact Function.update_self _ _ _
    · rw [decodeBlocks_frame hin hs (by show 0 + _ ≤ i; omega)]
      exact Function.update_of_ne (Nat.ne_of_gt hi) _ _

theorem decodeBase64_iff_five : ∃ size m',
    decodeBase64 [90, 109, 57, 118, 61] (fun _ => 0) 5 = some (size, m') ∧
      Decoded 5 (fun _ => 0) m' size :=
  (@decodeBase64_iff [90, 109, 57, 118, 61] (by decide)).mpr ⟨by simp, by decide⟩ _

/-- a byte behind the table, and a negative size -/
theorem decodeBase64_bad : decodeBase64 [200, 65, 65, 65] (fun _ => 0) 4 = none ∧
    (decodeBase64 [61, 61, 61, 61] (fun _ => 0) 4).map Prod.fst = some (-1) := by
  constructor <;> decide +kernel

end

end Base64
