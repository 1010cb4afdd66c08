import LearnDiary.Comm.IniRoundtrip

/-!
# What a reopened INI file answers (comm/ini.h)

* `get_kept`         sections without keys, which `Save` leaves out, do not show in a `Get`;
* `get_reopen`       an object opened on a saved file answers like the saved one;
* `getNumber_reopen` an integer that was set comes back from the file.
-/

namespace Ini
open Runs

/-! ## what `Get` answers -/

theorem lookup_value (ini : INI) (s k : Bytes) :
    (lookup ini s k).1 = ((ini.sections.find s).getD .empty).find k := by
  unfold lookup
  dsimp only
  rw [SortedMap.find_insert_self, Option.getD_some]

theorem find_none_of_empty {m : Keys} (h : m.entries.length = 0) (k : Bytes) : m.find k = none := by
  rw [SortedMap.find, List.eq_nil_of_length_eq_zero h]
  rfl

theorem lookup_kept (ini : INI) (s k : Bytes) :
    (lookup { sections := kept ini } s k).1 = (lookup ini s k).1 := by
  rw [lookup_value, lookup_value]
  cases hf : ini.sections.find s with
  | none =>
    cases hk : (kept ini).find s with
    | none => rfl
    | some m =>
      rw [SortedMap.find_of_filter hk] at hf
      cases hf
  | some m =>
    by_cases he : m.entries.length = 0
    · -- an empty section is not written: nothing is found in either object
      cases hk : (kept ini).find s with
      | none =>
        rw [Option.getD_none, Option.getD_some, find_none_of_empty rfl, find_none_of_empty he]
      | some m' =>
        have hm := (SortedMap.find_of_filter hk).symm.trans hf
        cases hm
        rfl
    · rw [kept, SortedMap.find_filter hf (fun a _ => decide_eq_true he)]

theorem get_kept (ini : INI) (s k d : Bytes) :
    (get { sections := kept ini } s k d).1 = (get ini s k d).1 := by
  unfold get
  split
  · rfl
  · split
    · rfl
    · exact congrArg (Option.getD · d) (lookup_kept ini s k)

theorem getNumber_kept (t : StringCast.CInt) (ini : INI) (s k : Bytes) (d : Int) :
    (getNumber t { sections := kept ini } s k d).1 = (getNumber t ini s k d).1 := by
  have h := lookup_kept ini s k
  unfold getNumber
  split
  · rfl
  · split
    · rfl
    · dsimp only
      rw [h]
      cases (lookup ini s k).1 with
      | none => rfl
      | some second =>
        dsimp only
        split <;> rfl

/-- **the saved object and the one opened on its file answer alike** -/
theorem get_reopen {ini : INI} (h : AnyRun call {} ini) (hs : Storable (kept ini)) :
    ∃ ini', open_ (some (save ini)) = some ini' ∧
      (∀ s k d, (get ini' s k d).1 = (get ini s k d).1) ∧
      ∀ t s k d, (getNumber t ini' s k d).1 = (getNumber t ini s k d).1 :=
  ⟨_, open_save ((storable_iff (named_run h)).mpr hs), get_kept ini,
    fun t => getNumber_kept t ini⟩

theorem get_reopen_one :
    ∃ ini', open_ (some (save (set {} [97] [107] [118]).2)) = some ini' ∧
      (∀ s k d, (get ini' s k d).1 = (get (set {} [97] [107] [118]).2 s k d).1) ∧
      ∀ t s k d, (getNumber t ini' s k d).1 = (getNumber t (set {} [97] [107] [118]).2 s k d).1 :=
  get_reopen (Run.of_exec (l := [.set [97] [107] [118]]) rfl) (by
    intro i hi
    cases List.mem_singleton.mp (show i ∈ [([97], _)] from hi)
    refine ⟨by decide, fun j hj => ?_⟩
    cases List.mem_singleton.mp (show j ∈ [([107], [118])] from hj)
    decide)

/-! ## integers -/

/-- what `Set` has written is what `Get` finds -/
theorem lookup_set {ini : INI} {s k v : Bytes} (h : (set ini s k v).1 = true) :
    (lookup (set ini s k v).2 s k).1 = some v ∧ verifyName s = true ∧ verifyName k = true := by
  unfold set at h ⊢
  split at h
  · cases h
  · rename_i hs
    split at h
    · cases h
    · rename_i hk
      split at h
      · cases h
      · rename_i hl
        rw [if_neg hs, if_neg hk, if_neg hl]
        refine ⟨?_, not_not.mp hs, not_not.mp hk⟩
        rw [lookup_value]
        dsimp only
        rw [put, SortedMap.find_set, Option.getD_some, SortedMap.find_set]

open StringCast in
/-- **an integer survives**: set, saved, and read from the file as the type it was set from -/
theorem getNumber_reopen {t : CInt} {v : Int} (h1 : t.min ≤ v) (h2 : v ≤ t.max) {text : Bytes}
    (ht : stringCast t v 10 = some text) {ini : INI} (h : AnyRun call {} ini) {s k : Bytes}
    (hset : (set ini s k text).1 = true) (hs : Storable (kept (set ini s k text).2)) (d : Int) :
    ∃ ini', open_ (some (save (set ini s k text).2)) = some ini' ∧
      (getNumber t ini' s k d).1 = v := by
  have hf : Fits t v := by
    by_contra hf
    rw [stringCast_none hf] at ht
    cases ht
  have htext : printInt v = text := by
    rw [stringCast_eq h1 h2 hf] at ht
    exact Option.some.inj ht
  obtain ⟨hl, hns, hnk⟩ := lookup_set hset
  have hrun : AnyRun call {} (set ini s k text).2 := h.tail ⟨.set s k text, trivial, rfl⟩
  refine ⟨_, open_save ((storable_iff (named_run hrun)).mpr hs), ?_⟩
  have hcstr : cstr text = text := by
    rw [← htext]
    exact Find.upTo_eq_self notNul fun _ hc => (printInt_mem hc).2
  have hcast : numberCast t (some (cstr text)) = ⟨v, true⟩ := by
    rw [hcstr, ← htext, numberCast_printInt h1 h2]
  have hne : text ≠ [] := by
    rw [← htext, printInt]
    split
    · exact List.cons_ne_nil _ _
    · exact printNat_ne_nil _ _
  rw [getNumber_kept, getNumber, if_neg (not_not.mpr hns), if_neg (not_not.mpr hnk)]
  dsimp only
  rw [hl]
  dsimp only
  rw [if_neg hne, hcast, if_pos rfl]
  exact CInt.cast_of_range h1 h2

/-- -7, as an `int` -/
theorem getNumber_reopen_seven :
    ∃ ini', open_ (some (save (set {} [97] [107] [45, 55]).2)) = some ini' ∧
      (getNumber .int ini' [97] [107] 0).1 = -7 := by
  have htext : printInt (-7) = [45, 55] := by decide
  have ht : StringCast.stringCast .int (-7) 10 = some [45, 55] := by
    rw [← htext]
    exact StringCast.stringCast_eq (by decide) (by decide) (by decide)
  have hs : Storable (kept (set {} [97] [107] [45, 55]).2) := by
    intro i hi
    cases List.mem_singleton.mp (show i ∈ [([97], _)] from hi)
    refine ⟨by decide, fun j hj => ?_⟩
    cases List.mem_singleton.mp (show j ∈ [([107], [45, 55])] from hj)
    decide
  exact getNumber_reopen (by decide) (by decide) ht Relation.ReflTransGen.refl (by decide) hs 0

end Ini
