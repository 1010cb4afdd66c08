import LearnDiary.Comm.StringCast

/-!
# The text of a number in any base (comm/string_cast.h)

`value_cache_` has 65 bytes, for a sign, 63 digits and the terminator, or for 64 digits and the
terminator.  The least value of a 64-bit type has 64 digits and a sign in base 2.
-/

namespace StringCast

theorem numeral_length_le {b n k : Nat} (hb : 2 ≤ b) (hk : 1 ≤ k) :
    (numeral b n).length ≤ k ↔ n < b ^ k := by
  unfold numeral
  by_cases h0 : n = 0
  · rw [if_pos h0, h0]
    exact iff_of_true hk (Nat.pow_pos (by omega))
  · rw [if_neg h0, List.length_reverse, Nat.digits_length_le_iff hb]

/-- in base 3 the 64 bits take 41 digits at most -/
theorem numeral_length_short {b n : Nat} (hb : 3 ≤ b) (hn : n ≤ 2 ^ 64 - 1) :
    (numeral b n).length ≤ 41 := by
  rw [numeral_length_le (by omega) (by decide)]
  calc n < 3 ^ 41 := by omega
    _ ≤ b ^ 41 := Nat.pow_le_pow_left hb 41

/-- **The length**: text and terminator fit, except for the least value in base 2. -/
theorem canonical_length_le {base : Nat} (hb : 2 ≤ base) {v : Int} (h1 : -2 ^ 63 ≤ v)
    (h2 : v ≤ 2 ^ 64 - 1) (upper_case : Bool) :
    (canonical upper_case base v).length + 1 ≤ 65 ↔
      ¬ (base = 2 ∧ v = -2 ^ 63) := by
  have hlen : (canonical upper_case base v).length =
      (if v < 0 then 1 else 0) + (numeral base v.natAbs).length := by
    unfold canonical
    rw [List.length_append, List.length_map]
    split <;> rfl
  rw [hlen]
  by_cases h2' : base = 2
  · subst h2'
    have h63 := numeral_length_le (n := v.natAbs) hb (show 1 ≤ 63 by decide)
    have h64 := numeral_length_le (n := v.natAbs) hb (show 1 ≤ 64 by decide)
    norm_num at h63 h64
    split <;> omega
  · have := numeral_length_short (n := v.natAbs) (show 3 ≤ base by omega) (by omega)
    split <;> omega

/-- the canonical text for either case of the letters, and in the 65 bytes of `value_cache_` -/
structure Printed (t : CInt) (v : Int) (base : Nat) : Prop where
  text : ∀ upper_case, stringCastItoa t v base upper_case = some (canonical upper_case base v)
  cache : stringCast t v base = some (canonical true base v)

/-- **The printer.**  The text is right except where `35 + v` overflows, and for the least value of a
64-bit type in base 2. -/
theorem printed_iff (t : CInt) (v : Int) (base : Nat) (h1 : t.min ≤ v) (h2 : v ≤ t.max)
    (hb : 2 ≤ base) (hb' : base ≤ 36) :
    Printed t v base ↔ (t.signed = false ∨ v + 35 ≤ t.max) ∧
      ¬ (base = 2 ∧ v = -2 ^ 63) := by
  have hbounds := t.bounds
  constructor
  · intro h
    have hf : Fits t v := by
      by_contra hf
      have hsome := h.text true
      rw [stringCastItoa_none true hb hb' hf] at hsome
      cases hsome
    refine ⟨hf, ?_⟩
    rw [← canonical_length_le hb (by omega) (by omega) true]
    have hcache := h.cache
    unfold stringCast at hcache
    rw [h.text true, Option.bind_some] at hcache
    exact (Option.ite_none_right_eq_some.mp hcache).1
  · rintro ⟨hf, hlong⟩
    refine ⟨fun upper_case => stringCastItoa_eq upper_case hb hb' h1 h2 hf, ?_⟩
    rw [← canonical_length_le hb (by omega) (by omega) true] at hlong
    unfold stringCast
    rw [stringCastItoa_eq true hb hb' h1 h2 hf, Option.bind_some, if_pos hlong]

theorem printed_iff_hex : Printed .long (-255) 16 :=
  (printed_iff .long (-255) 16 (by decide) (by decide) (by decide) (by decide)).mpr (by decide)

/-- an overflow in the first round, and one byte too many -/
theorem not_printed : ¬ Printed .int 2147483647 10 ∧
    ¬ Printed .longLong (-2 ^ 63) 2 := by
  constructor
  · intro h
    have hcache := h.cache
    rw [stringCast_none (by decide)] at hcache
    cases hcache
  · intro h
    have hcache := h.cache
    have hlong := (canonical_length_le (le_refl 2) (le_refl (-2 ^ 63)) (by decide)
      true).not.mpr (not_not.mpr ⟨rfl, rfl⟩)
    unfold stringCast at hcache
    rw [h.text true, Option.bind_some, if_neg hlong] at hcache
    cases hcache

end StringCast
