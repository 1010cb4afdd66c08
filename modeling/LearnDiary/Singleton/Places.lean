import LearnDiary.Singleton.Registry

/-!
# Where the release helpers are

A helper that exists is on the list, among those that one thread has taken, or with its `DoRelease`
done.  The helpers on the list and those taken are pending: each stands for the instance of its type
or for one that is being constructed.

* `Places.effect`, `Pairs.effect`   every step keeps it so;
* `Pairs.owns`                      a pending helper whose mutex is free stands for an instance.
-/

set_option linter.unusedSectionVars false

namespace Singleton

/-- the places of a helper -/
inductive Where (θ : Type*) where
  | list
  | todo (t : θ)
  | dying (t : θ)

section
variable {τ θ : Type*}

def State.At (s : State τ θ) (h : Helper τ) : Where θ → Prop
  | .list => h ∈ s.lst_singleton_releasehelper_
  | .todo t => h ∈ s.todo t
  | .dying t => s.dying t = some h

/-- the `DoRelease` of the helper is to come -/
def State.Pending (s : State τ θ) (h : Helper τ) : Prop :=
  h ∈ s.lst_singleton_releasehelper_ ∨ ∃ t, h ∈ s.todo t

/-- each helper that exists has one place -/
structure Places (s : State τ θ) : Prop where
  unique : ∀ h w w', s.At h w → s.At h w' → w = w'
  list : s.lst_singleton_releasehelper_.Pairwise (fun h h' => h.id < h'.id)
  todo : ∀ t, (s.todo t).Nodup
  alive : ∀ h, h ∈ s.helpers ↔ ∃ w, s.At h w
  nodup : s.helpers.Nodup
  fresh : ∀ h ∈ s.helpers, h.id < s.next
  busy : ∀ t, s.task t ≠ .releasing → s.todo t = [] ∧ s.dying t = none

def Frame.locks : Frame τ → Option τ
  | .check T => some T
  | .construct T _ => some T
  | _ => none

/-- the helpers and the instances go together -/
structure Pairs (s : State τ θ) : Prop where
  pending : ∀ h, s.Pending h → (∃ t, .construct h.type h ∈ s.stack t) ∨
    ∃ i, s.instance_shared_ptr h.type = some i ∧ i.helper = h
  current : ∀ T i, s.instance_shared_ptr T = some i → i.type = T ∧ s.Pending i.helper
  building : ∀ t T h, .construct T h ∈ s.stack t →
    h.type = T ∧ s.instance_shared_ptr T = none ∧ s.Pending h
  holds : ∀ t T, T ∈ (s.stack t).filterMap Frame.locks ↔ s.singleton_mutex T = some t
  once : ∀ t, ((s.stack t).filterMap Frame.locks).Nodup

end

section
variable {τ θ : Type*} [DecidableEq τ] [DecidableEq θ] {s s' : State τ θ} {t : θ} {h : Helper τ}
  {T : τ} {k : List (Frame τ)}

theorem Places.init : Places ({} : State τ θ) where
  unique := by
    intro h w w' hw
    cases w <;> cases hw
  list := .nil
  todo := fun _ => .nil
  alive := by
    intro h
    refine ⟨nofun, ?_⟩
    rintro ⟨w, hw⟩
    cases w <;> cases hw
  nodup := .nil
  fresh := nofun
  busy := fun _ _ => ⟨rfl, rfl⟩

theorem Places.same (hp : Places s)
    (hl : s'.lst_singleton_releasehelper_ = s.lst_singleton_releasehelper_)
    (hh : s'.helpers = s.helpers) (hn : s'.next = s.next) (ht : s'.todo = s.todo)
    (hd : s'.dying = s.dying) (hb : ∀ t, s'.task t ≠ .releasing → s.task t ≠ .releasing) :
    Places s' := by
  have hat : ∀ h w, s'.At h w ↔ s.At h w := by
    intro h w
    cases w with
    | list => rw [State.At, State.At, hl]
    | todo t => rw [State.At, State.At, ht]
    | dying t => rw [State.At, State.At, hd]
  refine ⟨?_, by rw [hl]; exact hp.list, by rw [ht]; exact hp.todo, ?_, by rw [hh]; exact hp.nodup,
    by rw [hh, hn]; exact hp.fresh, ?_⟩
  · intro h w w' hw hw'
    exact hp.unique h w w' ((hat h w).mp hw) ((hat h w').mp hw')
  · intro h
    rw [hh, hp.alive]
    exact exists_congr (fun w => (hat h w).symm)
  · intro t htk
    rw [ht, hd]
    exact hp.busy t (hb t htk)

theorem Places.add (hp : Places s) : Places (s.add t T k) := by
  let n : Helper τ := ⟨s.next, T⟩
  have hnew : ∀ w, ¬ s.At n w := by
    intro w hw
    exact Nat.lt_irrefl _ (hp.fresh n ((hp.alive n).mpr ⟨w, hw⟩))
  have hat : ∀ h w, (s.add t T k).At h w ↔ s.At h w ∨ h = n ∧ w = .list := by
    intro h w
    cases w with
    | list =>
      show h ∈ s.lst_singleton_releasehelper_ ++ [n] ↔ _
      rw [List.mem_append, List.mem_singleton, State.At]
      exact ⟨fun hw => hw.imp id (fun he => ⟨he, rfl⟩), fun hw => hw.imp id (fun he => he.1)⟩
    | todo t => exact ⟨.inl, fun hw => hw.resolve_right (fun he => nomatch he.2)⟩
    | dying t => exact ⟨.inl, fun hw => hw.resolve_right (fun he => nomatch he.2)⟩
  refine ⟨?_, ?_, hp.todo, ?_, ?_, ?_, hp.busy⟩
  · intro h w w' hw hw'
    rcases (hat h w).mp hw with hw | ⟨he, hw⟩ <;> rcases (hat h w').mp hw' with hw' | ⟨he', hw'⟩
    · exact hp.unique h w w' hw hw'
    · exact absurd (he' ▸ hw) (hnew w)
    · exact absurd (he ▸ hw') (hnew w')
    · rw [hw, hw']
  · refine List.pairwise_append.mpr ⟨hp.list, List.pairwise_singleton _ _, ?_⟩
    intro a ha b hb
    rw [List.mem_singleton.mp hb]
    exact hp.fresh a ((hp.alive a).mpr ⟨.list, ha⟩)
  · intro h
    show h ∈ n :: s.helpers ↔ _
    rw [List.mem_cons, hp.alive]
    constructor
    · rintro (he | ⟨w, hw⟩)
      · exact ⟨.list, (hat h _).mpr (.inr ⟨he, rfl⟩)⟩
      · exact ⟨w, (hat h w).mpr (.inl hw)⟩
    · rintro ⟨w, hw⟩
      rcases (hat h w).mp hw with hw | ⟨he, -⟩
      · exact .inr ⟨w, hw⟩
      · exact .inl he
  · refine List.nodup_cons.mpr ⟨?_, hp.nodup⟩
    intro hn
    obtain ⟨w, hw⟩ := (hp.alive n).mp hn
    exact hnew w hw
  · intro h hh
    show h.id < s.next + 1
    rcases List.mem_cons.mp hh with rfl | hh
    · exact Nat.lt_succ_self _
    · exact Nat.lt_succ_of_lt (hp.fresh h hh)

theorem Places.take (hp : Places s) {l m : List (Helper τ)} (ht : s.todo t = [])
    (hl : l.Sublist s.lst_singleton_releasehelper_) (hm : m.Nodup)
    (hmem : ∀ h, h ∈ s.lst_singleton_releasehelper_ ↔ h ∈ l ∨ h ∈ m) (hdis : ∀ h ∈ l, h ∉ m) :
    Places (s.take t l m) := by
  have hself : (s.take t l m).todo t = m := Function.update_self ..
  have hother : ∀ t', t' ≠ t → (s.take t l m).todo t' = s.todo t' :=
    fun t' h => Function.update_of_ne h ..
  -- where a helper was before
  have hfrom : ∀ h w, (s.take t l m).At h w → s.At h w ∨ w = .todo t ∧ h ∈ m := by
    intro h w hw
    cases w with
    | list => exact .inl (hl.subset hw)
    | todo t' =>
      by_cases he : t' = t
      · rw [State.At, he, hself] at hw
        exact .inr ⟨by rw [he], hw⟩
      · rw [State.At, hother t' he] at hw
        exact .inl hw
    | dying t' => exact .inl hw
  have hlist : ∀ h, h ∈ m → ∀ w, (s.take t l m).At h w → w = .todo t := by
    intro h hm w hw
    rcases hfrom h w hw with hw' | ⟨he, -⟩
    · have := hp.unique h w .list hw' ((hmem h).mpr (.inr hm))
      rw [this] at hw
      exact absurd hm (hdis h hw)
    · exact he
  refine ⟨?_, hp.list.sublist hl, ?_, ?_, hp.nodup, hp.fresh, ?_⟩
  · intro h w w' hw hw'
    rcases hfrom h w hw with h₁ | ⟨he, hm⟩
    · rcases hfrom h w' hw' with h₂ | ⟨he', hm⟩
      · exact hp.unique h w w' h₁ h₂
      · rw [hlist h hm w hw, he']
    · rw [he, hlist h hm w' hw']
  · intro t'
    by_cases he : t' = t
    · rw [he, hself]
      exact hm
    · rw [hother t' he]
      exact hp.todo t'
  · intro h
    refine (hp.alive h).trans ⟨?_, ?_⟩
    · rintro ⟨w, hw⟩
      cases w with
      | list =>
        rcases (hmem h).mp hw with hw | hw
        · exact ⟨.list, hw⟩
        · exact ⟨.todo t, by rw [State.At, hself]; exact hw⟩
      | todo t' =>
        refine ⟨.todo t', ?_⟩
        by_cases he : t' = t
        · rw [State.At, he, ht] at hw
          cases hw
        · rw [State.At, hother t' he]
          exact hw
      | dying t' => exact ⟨.dying t', hw⟩
    · rintro ⟨w, hw⟩
      rcases hfrom h w hw with hw | ⟨-, hm⟩
      · exact ⟨w, hw⟩
      · exact ⟨.list, (hmem h).mpr (.inr hm)⟩
  · intro t' htk
    by_cases he : t' = t
    · rw [he] at htk
      exact absurd (Function.update_self ..) htk
    · rw [hother t' he]
      change Function.update s.task t _ t' ≠ _ at htk
      rw [Function.update_of_ne he] at htk
      exact hp.busy t' htk

theorem Places.doRelease (hp : Places s) {l : List (Helper τ)} (ht : s.todo t = h :: l)
    (hd : s.dying t = none) : Places (s.doRelease t h l) := by
  have hself : (s.doRelease t h l).todo t = l := Function.update_self ..
  have hother : ∀ t', t' ≠ t → (s.doRelease t h l).todo t' = s.todo t' :=
    fun t' h => Function.update_of_ne h ..
  have hdself : (s.doRelease t h l).dying t = some h := Function.update_self ..
  have hdother : ∀ t', t' ≠ t → (s.doRelease t h l).dying t' = s.dying t' :=
    fun t' h => Function.update_of_ne h ..
  have hnodup := List.nodup_cons.mp (ht ▸ hp.todo t)
  have hmem : s.At h (.todo t) := by
    rw [State.At, ht]
    exact List.mem_cons_self
  -- the places of the helpers: `h` has moved
  have hat : ∀ x w, (s.doRelease t h l).At x w ↔
      x ≠ h ∧ s.At x w ∨ x = h ∧ w = .dying t := by
    intro x w
    have hne : x = h → s.At x w → w = .todo t := fun he hw => hp.unique h w _ (he ▸ hw) hmem
    cases w with
    | list =>
      refine ⟨fun hw => .inl ⟨fun he => (nomatch hne he hw), hw⟩, ?_⟩
      rintro (hw | hw)
      · exact hw.2
      · cases hw.2
    | todo t' =>
      by_cases he : t' = t
      · rw [State.At, he, hself, State.At, ht, List.mem_cons]
        constructor
        · intro hw
          exact .inl ⟨fun hx => hnodup.1 (hx ▸ hw), .inr hw⟩
        · rintro (hw | hw)
          · exact hw.2.resolve_left hw.1
          · cases hw.2
      · rw [State.At, hother t' he]
        refine ⟨fun hw => .inl ⟨fun hx => he ?_, hw⟩, ?_⟩
        · cases hne hx hw
          rfl
        · rintro (hw | hw)
          · exact hw.2
          · cases hw.2
    | dying t' =>
      by_cases he : t' = t
      · rw [State.At, he, hdself]
        constructor
        · intro hw
          cases hw
          exact .inr ⟨rfl, rfl⟩
        · rintro (hw | hw)
          · have := hw.2
            rw [State.At, hd] at this
            cases this
          · rw [hw.1]
      · rw [State.At, hdother t' he]
        refine ⟨fun hw => .inl ⟨fun hx => (nomatch hne hx hw), hw⟩, ?_⟩
        rintro (hw | hw)
        · exact hw.2
        · cases hw.2
          exact absurd rfl he
  refine ⟨?_, hp.list, ?_, ?_, hp.nodup, hp.fresh, ?_⟩
  · intro x w w' hw hw'
    rcases (hat x w).mp hw with ⟨hx, hw⟩ | ⟨hx, hw⟩ <;>
      rcases (hat x w').mp hw' with ⟨hx', hw'⟩ | ⟨hx', hw'⟩
    · exact hp.unique x w w' hw hw'
    · exact absurd hx' hx
    · exact absurd hx hx'
    · rw [hw, hw']
  · intro t'
    by_cases he : t' = t
    · rw [he, hself]
      exact hnodup.2
    · rw [hother t' he]
      exact hp.todo t'
  · intro x
    refine (hp.alive x).trans ⟨?_, ?_⟩
    · rintro ⟨w, hw⟩
      by_cases hx : x = h
      · exact ⟨.dying t, (hat x _).mpr (.inr ⟨hx, rfl⟩)⟩
      · exact ⟨w, (hat x w).mpr (.inl ⟨hx, hw⟩)⟩
    · rintro ⟨w, hw⟩
      rcases (hat x w).mp hw with ⟨-, hw⟩ | ⟨hx, -⟩
      · exact ⟨w, hw⟩
      · exact ⟨.todo t, hx ▸ hmem⟩
  · intro t' htk
    have := hp.busy t' htk
    by_cases he : t' = t
    · rw [he, ht] at this
      cases this.1
    · rw [hother t' he, hdother t' he]
      exact this

theorem Places.delete (hp : Places s) (hd : s.dying t = some h) : Places (s.delete t h) := by
  have hdself : (s.delete t h).dying t = none := Function.update_self ..
  have hdother : ∀ t', t' ≠ t → (s.delete t h).dying t' = s.dying t' :=
    fun t' h => Function.update_of_ne h ..
  have hat : ∀ x w, (s.delete t h).At x w ↔ x ≠ h ∧ s.At x w := by
    intro x w
    have hne : x = h → s.At x w → w = .dying t := fun he hw => hp.unique h w (.dying t) (he ▸ hw) hd
    cases w with
    | list => exact ⟨fun hw => ⟨fun he => (nomatch hne he hw), hw⟩, fun hw => hw.2⟩
    | todo t' => exact ⟨fun hw => ⟨fun he => (nomatch hne he hw), hw⟩, fun hw => hw.2⟩
    | dying t' =>
      by_cases he : t' = t
      · rw [State.At, he, hdself, State.At, hd]
        refine ⟨nofun, fun hw => ?_⟩
        exact absurd (Option.some.inj hw.2).symm hw.1
      · rw [State.At, hdother t' he]
        refine ⟨fun hw => ⟨fun hx => he ?_, hw⟩, fun hw => hw.2⟩
        cases hne hx hw
        rfl
  refine ⟨?_, hp.list, hp.todo, ?_, hp.nodup.erase h, ?_, ?_⟩
  · intro x w w' hw hw'
    exact hp.unique x w w' ((hat x w).mp hw).2 ((hat x w').mp hw').2
  · intro x
    show x ∈ s.helpers.erase h ↔ _
    rw [hp.nodup.mem_erase_iff, hp.alive]
    constructor
    · rintro ⟨hx, w, hw⟩
      exact ⟨w, (hat x w).mpr ⟨hx, hw⟩⟩
    · rintro ⟨w, hw⟩
      exact ⟨((hat x w).mp hw).1, w, ((hat x w).mp hw).2⟩
  · intro x hx
    exact hp.fresh x (List.mem_of_mem_erase hx)
  · intro t' htk
    have := hp.busy t' htk
    by_cases he : t' = t
    · rw [he, hd] at this
      cases this.2
    · rw [hdother t' he]
      exact this

/-! ## the pairs -/

theorem Pairs.init : Pairs ({} : State τ θ) where
  pending := by
    rintro h (hh | ⟨t, hh⟩) <;> cases hh
  current := nofun
  building := nofun
  holds := fun _ _ => ⟨nofun, nofun⟩
  once := fun _ => .nil

theorem Pairs.same (hp : Pairs s) (hptr : s'.instance_shared_ptr = s.instance_shared_ptr)
    (hmut : s'.singleton_mutex = s.singleton_mutex) (hpend : ∀ h, s'.Pending h ↔ s.Pending h)
    (hcon : ∀ t T h, .construct T h ∈ s'.stack t ↔ .construct T h ∈ s.stack t)
    (hlocks : ∀ t, (s'.stack t).filterMap Frame.locks = (s.stack t).filterMap Frame.locks) :
    Pairs s' := by
  constructor
  · intro h hh
    rw [hptr]
    rcases hp.pending h ((hpend h).mp hh) with ⟨t, ht⟩ | hi
    · exact .inl ⟨t, (hcon t _ h).mpr ht⟩
    · exact .inr hi
  · intro T i hi
    rw [hptr] at hi
    exact ⟨(hp.current T i hi).1, (hpend _).mpr (hp.current T i hi).2⟩
  · intro t T h hh
    obtain ⟨h₁, h₂, h₃⟩ := hp.building t T h ((hcon t T h).mp hh)
    exact ⟨h₁, by rw [hptr]; exact h₂, (hpend h).mpr h₃⟩
  · intro t T
    rw [hlocks, hmut]
    exact hp.holds t T
  · intro t
    rw [hlocks]
    exact hp.once t

theorem Pairs.restack (hp : Pairs s) {k' : List (Frame τ)} (hk : s.stack t = k)
    (hptr : s'.instance_shared_ptr = s.instance_shared_ptr)
    (hmut : s'.singleton_mutex = s.singleton_mutex) (hpend : ∀ h, s'.Pending h ↔ s.Pending h)
    (hstack : s'.stack = Function.update s.stack t k')
    (hcon : ∀ T h, .construct T h ∈ k' ↔ .construct T h ∈ k)
    (hlocks : k'.filterMap Frame.locks = k.filterMap Frame.locks) : Pairs s' := by
  refine hp.same hptr hmut hpend ?_ ?_
  · intro t' T h
    rw [hstack]
    by_cases he : t' = t
    · rw [he, Function.update_self, hk]
      exact hcon T h
    · rw [Function.update_of_ne he]
  · intro t'
    rw [hstack]
    by_cases he : t' = t
    · rw [he, Function.update_self, hk]
      exact hlocks
    · rw [Function.update_of_ne he]

theorem Pairs.locked (hp : Pairs s) (hk : s.stack t = .lock T :: k)
    (hm : s.singleton_mutex T = none) : Pairs (s.locked t T k) := by
  have hself : (s.locked t T k).stack t = .check T :: k := Function.update_self ..
  have hother : ∀ t', t' ≠ t → (s.locked t T k).stack t' = s.stack t' :=
    fun t' h => Function.update_of_ne h ..
  have hfree : ∀ t', T ∉ (s.stack t').filterMap Frame.locks := by
    intro t' hT
    rw [hp.holds, hm] at hT
    cases hT
  have hkl : (s.stack t).filterMap Frame.locks = k.filterMap Frame.locks := by
    rw [hk]
    rfl
  have hcon : ∀ t' T' h, .construct T' h ∈ (s.locked t T k).stack t' ↔
      .construct T' h ∈ s.stack t' := by
    intro t' T' h
    by_cases he : t' = t
    · rw [he, hself, hk]
      simp
    · rw [hother t' he]
  constructor
  · intro h hh
    rcases hp.pending h hh with ⟨t', ht'⟩ | hi
    · exact .inl ⟨t', (hcon t' _ h).mpr ht'⟩
    · exact .inr hi
  · exact hp.current
  · intro t' T' h hh
    exact hp.building t' T' h ((hcon t' T' h).mp hh)
  · intro t' T'
    show _ ↔ Function.update s.singleton_mutex T (some t) T' = some t'
    by_cases hT : T' = T
    · rw [hT, Function.update_self]
      by_cases he : t' = t
      · rw [he, hself]
        exact ⟨fun _ => rfl, fun _ => List.mem_cons_self⟩
      · rw [hother t' he]
        exact ⟨fun h => absurd h (hfree t'), fun h => absurd (Option.some.inj h).symm he⟩
    · rw [Function.update_of_ne hT, ← hp.holds]
      by_cases he : t' = t
      · rw [he, hself, hkl]
        show T' ∈ T :: k.filterMap Frame.locks ↔ _
        rw [List.mem_cons]
        exact ⟨fun h => h.resolve_left hT, .inr⟩
      · rw [hother t' he]
  · intro t'
    by_cases he : t' = t
    · rw [he, hself]
      show (T :: k.filterMap Frame.locks).Nodup
      rw [← hkl]
      exact List.nodup_cons.mpr ⟨hfree t, hp.once t⟩
    · rw [hother t' he]
      exact hp.once t'

theorem Pairs.unlocked (hp : Pairs s) (s' : State τ θ) {f : Frame τ} (hk : s.stack t = f :: k)
    (hf : f.locks = some T) (hmut : s'.singleton_mutex = Function.update s.singleton_mutex T none)
    (hstack : s'.stack = Function.update s.stack t k) (t' : θ) :
    (∀ T', T' ∈ (s'.stack t').filterMap Frame.locks ↔ s'.singleton_mutex T' = some t') ∧
    ((s'.stack t').filterMap Frame.locks).Nodup := by
  have hkl : (s.stack t).filterMap Frame.locks = T :: k.filterMap Frame.locks := by
    rw [hk, List.filterMap_cons_some hf]
  have honce := List.nodup_cons.mp (hkl ▸ hp.once t)
  have hT : s.singleton_mutex T = some t := (hp.holds t T).mp (by rw [hkl]; exact List.mem_cons_self)
  constructor
  · intro T'
    rw [hmut]
    by_cases he : t' = t
    · rw [he, hstack, Function.update_self]
      by_cases hT' : T' = T
      · rw [hT', Function.update_self]
        exact ⟨fun h => absurd h honce.1, nofun⟩
      · rw [Function.update_of_ne hT', ← hp.holds, hkl, List.mem_cons]
        exact ⟨.inr, fun h => h.resolve_left hT'⟩
    · rw [hstack, Function.update_of_ne he, hp.holds]
      by_cases hT' : T' = T
      · rw [hT', Function.update_self, hT]
        exact ⟨fun h => absurd (Option.some.inj h).symm he, nofun⟩
      · rw [Function.update_of_ne hT']
  · by_cases he : t' = t
    · rw [he, hstack, Function.update_self]
      exact honce.2
    · rw [hstack, Function.update_of_ne he]
      exact hp.once t'

theorem Pairs.finds (hp : Pairs s) {i : Inst τ} (hk : s.stack t = .check T :: k) :
    Pairs ((s.unlock T).ret t i k) := by
  have hcon : ∀ t' T' h, .construct T' h ∈ ((s.unlock T).ret t i k).stack t' ↔
      .construct T' h ∈ s.stack t' := by
    intro t' T' h
    show _ ∈ Function.update s.stack t k t' ↔ _
    by_cases he : t' = t
    · rw [he, Function.update_self, hk]
      simp
    · rw [Function.update_of_ne he]
  have hun := hp.unlocked ((s.unlock T).ret t i k) hk rfl rfl rfl
  refine ⟨?_, hp.current, ?_, fun t' => (hun t').1, fun t' => (hun t').2⟩
  · intro h hh
    rcases hp.pending h hh with ⟨t', ht'⟩ | hi
    · exact .inl ⟨t', (hcon t' _ h).mpr ht'⟩
    · exact .inr hi
  · intro t' T' h hh
    exact hp.building t' T' h ((hcon t' T' h).mp hh)

theorem Pairs.mutex (hp : Pairs s) {t' : θ} (h' : .construct T h ∈ s.stack t') :
    s.singleton_mutex T = some t' :=
  (hp.holds t' T).mp (List.mem_filterMap.mpr ⟨_, h', rfl⟩)

/-- a mutex that is held by a call at its test: no constructor of the type runs -/
theorem Pairs.not_building (hp : Pairs s) (hk : s.stack t = .check T :: k) (t' : θ)
    (h : Helper τ) : .construct T h ∉ s.stack t' := by
  intro h'
  have hkl : (s.stack t).filterMap Frame.locks = T :: k.filterMap Frame.locks := by
    rw [hk]
    rfl
  have hT : s.singleton_mutex T = some t := (hp.holds t T).mp (by rw [hkl]; exact List.mem_cons_self)
  have he : t' = t := Option.some.inj ((hp.mutex h').symm.trans hT)
  have honce := List.nodup_cons.mp (hkl ▸ hp.once t)
  rw [he, hk] at h'
  rcases List.mem_cons.mp h' with h' | h'
  · cases h'
  · exact honce.1 (List.mem_filterMap.mpr ⟨_, h', rfl⟩)

theorem Pairs.add (hp : Pairs s) (hk : s.stack t = .check T :: k)
    (hptr : s.instance_shared_ptr T = none) : Pairs (s.add t T k) := by
  let n : Helper τ := ⟨s.next, T⟩
  have hself : (s.add t T k).stack t = .construct T n :: k := Function.update_self ..
  have hother : ∀ t', t' ≠ t → (s.add t T k).stack t' = s.stack t' :=
    fun t' h => Function.update_of_ne h ..
  have hpend : ∀ h, (s.add t T k).Pending h ↔ s.Pending h ∨ h = n := by
    intro h
    show h ∈ s.lst_singleton_releasehelper_ ++ [n] ∨ _ ↔ _
    rw [List.mem_append, List.mem_singleton]
    constructor
    · rintro ((h | h) | h)
      · exact .inl (.inl h)
      · exact .inr h
      · exact .inl (.inr h)
    · rintro ((h | h) | h)
      · exact .inl (.inl h)
      · exact .inr h
      · exact .inl (.inr h)
  have hcon : ∀ t' T' h, .construct T' h ∈ (s.add t T k).stack t' ↔
      .construct T' h ∈ s.stack t' ∨ t' = t ∧ T' = T ∧ h = n := by
    intro t' T' h
    by_cases he : t' = t
    · rw [he, hself, hk]
      simp only [List.mem_cons, Frame.construct.injEq, reduceCtorEq, false_or, true_and]
      exact Or.comm
    · rw [hother t' he]
      exact ⟨.inl, fun h => h.resolve_right (fun hn => he hn.1)⟩
  have hlocks : ∀ t', ((s.add t T k).stack t').filterMap Frame.locks =
      (s.stack t').filterMap Frame.locks := by
    intro t'
    by_cases he : t' = t
    · rw [he, hself, hk]
      rfl
    · rw [hother t' he]
  constructor
  · intro h hh
    rcases (hpend h).mp hh with hh | he
    · rcases hp.pending h hh with ⟨t', ht'⟩ | hi
      · exact .inl ⟨t', (hcon t' _ h).mpr (.inl ht')⟩
      · exact .inr hi
    · rw [he]
      exact .inl ⟨t, (hcon t _ n).mpr (.inr ⟨rfl, rfl, rfl⟩)⟩
  · intro T' i hi
    exact ⟨(hp.current T' i hi).1, (hpend _).mpr (.inl (hp.current T' i hi).2)⟩
  · intro t' T' h hh
    rcases (hcon t' T' h).mp hh with hh | ⟨-, hT, he⟩
    · obtain ⟨h₁, h₂, h₃⟩ := hp.building t' T' h hh
      exact ⟨h₁, h₂, (hpend h).mpr (.inl h₃)⟩
    · rw [hT, he]
      exact ⟨rfl, hptr, (hpend n).mpr (.inr rfl)⟩
  · intro t' T'
    rw [hlocks]
    exact hp.holds t' T'
  · intro t'
    rw [hlocks]
    exact hp.once t'

theorem Pairs.set (hp : Pairs s) {addr : Nat} (hk : s.stack t = .construct T h :: k) :
    Pairs (((s.set T ⟨h, addr⟩).unlock T).ret t ⟨h, addr⟩ k) := by
  have hmem : .construct T h ∈ s.stack t := by
    rw [hk]
    exact List.mem_cons_self
  obtain ⟨hT, hptr, hpend⟩ := hp.building t T h hmem
  -- no other constructor of the type runs
  have hkl : (s.stack t).filterMap Frame.locks = T :: k.filterMap Frame.locks := by
    rw [hk]
    rfl
  have honce := List.nodup_cons.mp (hkl ▸ hp.once t)
  have hcon : ∀ t' T' h', .construct T' h' ∈ Function.update s.stack t k t' ↔
      .construct T' h' ∈ s.stack t' ∧ T' ≠ T := by
    intro t' T' h'
    by_cases he : t' = t
    · rw [he, Function.update_self, hk, List.mem_cons]
      constructor
      · intro h'
        exact ⟨.inr h', fun hTT => honce.1 (List.mem_filterMap.mpr ⟨_, h', by rw [hTT]; rfl⟩)⟩
      · rintro ⟨h' | h', hne⟩
        · cases h'
          exact absurd rfl hne
        · exact h'
    · rw [Function.update_of_ne he]
      refine ⟨fun h' => ⟨h', fun hTT => he ?_⟩, fun h' => h'.1⟩
      rw [hTT] at h'
      exact Option.some.inj ((hp.mutex h').symm.trans (hp.mutex hmem))
  have hun := hp.unlocked (((s.set T ⟨h, addr⟩).unlock T).ret t ⟨h, addr⟩ k) hk rfl rfl rfl
  refine ⟨?_, ?_, ?_, fun t' => (hun t').1, fun t' => (hun t').2⟩
  · intro h' hh
    by_cases hne : h'.type = T
    · right
      refine ⟨⟨h, addr⟩, ?_, ?_⟩
      · show Function.update s.instance_shared_ptr T _ h'.type = _
        rw [hne, Function.update_self]
      · rcases hp.pending h' hh with ⟨t', ht'⟩ | ⟨i, hi, -⟩
        · rw [hne] at ht'
          have he : t' = t := Option.some.inj ((hp.mutex ht').symm.trans (hp.mutex hmem))
          rw [he, hk] at ht'
          rcases List.mem_cons.mp ht' with h' | h'
          · cases h'
            rfl
          · exact (honce.1 (List.mem_filterMap.mpr ⟨_, h', rfl⟩)).elim
        · rw [hne, hptr] at hi
          cases hi
    · rcases hp.pending h' hh with ⟨t', ht'⟩ | ⟨i, hi, he⟩
      · exact .inl ⟨t', (hcon t' _ h').mpr ⟨ht', hne⟩⟩
      · refine .inr ⟨i, ?_, he⟩
        show Function.update s.instance_shared_ptr T _ h'.type = _
        rw [Function.update_of_ne hne]
        exact hi
  · intro T' i hi
    change Function.update s.instance_shared_ptr T (some ⟨h, addr⟩) T' = some i at hi
    by_cases hne : T' = T
    · rw [hne, Function.update_self] at hi
      cases hi
      exact ⟨hT.trans hne.symm, hpend⟩
    · rw [Function.update_of_ne hne] at hi
      exact hp.current T' i hi
  · intro t' T' h' hh
    obtain ⟨hh, hne⟩ := (hcon t' T' h').mp hh
    obtain ⟨h₁, h₂, h₃⟩ := hp.building t' T' h' hh
    refine ⟨h₁, ?_, h₃⟩
    show Function.update s.instance_shared_ptr T _ T' = none
    rw [Function.update_of_ne hne]
    exact h₂

/-- **a pending helper whose mutex is free stands for the instance of its type** -/
theorem Pairs.owns (hp : Pairs s) (hh : s.Pending h) (hm : s.singleton_mutex h.type = none) :
    ∃ i, s.instance_shared_ptr h.type = some i ∧ i.helper = h := by
  rcases hp.pending h hh with ⟨t, ht⟩ | hi
  · rw [hp.mutex ht] at hm
    cases hm
  · exact hi

/-- a helper leaves the pending ones, the others stay -/
theorem pending_doRelease (hpl : Places s) {l : List (Helper τ)} (ht : s.todo t = h :: l)
    (x : Helper τ) : (s.doRelease t h l).Pending x ↔ s.Pending x ∧ x ≠ h := by
  have hmem : s.At h (.todo t) := by
    rw [State.At, ht]
    exact List.mem_cons_self
  have hnodup := List.nodup_cons.mp (ht ▸ hpl.todo t)
  have hself : (s.doRelease t h l).todo t = l := Function.update_self ..
  have hother : ∀ t', t' ≠ t → (s.doRelease t h l).todo t' = s.todo t' :=
    fun t' h => Function.update_of_ne h ..
  constructor
  · rintro (hx | ⟨t', hx⟩)
    · refine ⟨.inl hx, fun he => ?_⟩
      rw [he] at hx
      cases hpl.unique h .list _ hx hmem
    · by_cases he : t' = t
      · rw [he, hself] at hx
        refine ⟨.inr ⟨t, by rw [ht]; exact List.mem_cons_of_mem h hx⟩, fun hxh => ?_⟩
        exact hnodup.1 (hxh ▸ hx)
      · rw [hother t' he] at hx
        refine ⟨.inr ⟨t', hx⟩, fun hxh => he ?_⟩
        rw [hxh] at hx
        cases hpl.unique h (.todo t') _ hx hmem
        rfl
  · rintro ⟨hx | ⟨t', hx⟩, hne⟩
    · exact .inl hx
    · refine .inr ⟨t', ?_⟩
      by_cases he : t' = t
      · rw [he, ht] at hx
        rw [he, hself]
        exact (List.mem_cons.mp hx).resolve_left hne
      · rw [hother t' he]
        exact hx

theorem Pairs.doRelease (hp : Pairs s) (hpl : Places s) {l : List (Helper τ)}
    (ht : s.todo t = h :: l) (hm : s.singleton_mutex h.type = none) :
    Pairs (s.doRelease t h l) := by
  obtain ⟨i, hi, hih⟩ := hp.owns (.inr ⟨t, by rw [ht]; exact List.mem_cons_self⟩) hm
  have hptr : ∀ T, (s.doRelease t h l).instance_shared_ptr T =
      if T = h.type then none else s.instance_shared_ptr T := by
    intro T
    show Function.update s.instance_shared_ptr h.type none T = _
    by_cases hT : T = h.type
    · rw [if_pos hT, hT, Function.update_self]
    · rw [if_neg hT, Function.update_of_ne hT]
  refine ⟨?_, ?_, ?_, hp.holds, hp.once⟩
  · intro x hx
    obtain ⟨hx, hne⟩ := (pending_doRelease hpl ht x).mp hx
    rcases hp.pending x hx with hb | ⟨j, hj, hjx⟩
    · exact .inl hb
    · refine .inr ⟨j, ?_, hjx⟩
      rw [hptr, if_neg]
      · exact hj
      · intro he
        rw [he, hi] at hj
        cases hj
        exact hne (hjx.symm.trans hih)
  · intro T j hj
    rw [hptr] at hj
    split at hj
    · cases hj
    · rename_i hT
      refine ⟨(hp.current T j hj).1, (pending_doRelease hpl ht _).mpr ⟨(hp.current T j hj).2, ?_⟩⟩
      intro he
      exact hT ((hp.current T j hj).1.symm.trans (congrArg Helper.type he))
  · intro t' T x hx
    obtain ⟨h₁, h₂, h₃⟩ := hp.building t' T x hx
    refine ⟨h₁, ?_, (pending_doRelease hpl ht x).mpr ⟨h₃, ?_⟩⟩
    · rw [hptr, h₂, ite_self]
    · intro he
      have hmx := hp.mutex hx
      rw [← h₁, he, hm] at hmx
      cases hmx

/-! ## the steps -/

/-- what a step of the thread `t` does -/
inductive Effect (s : State τ θ) (t : θ) : Act τ → State τ θ → Prop
  | nothing {a : Act τ} : Effect s t a s
  | calls {a : Act τ} {T : τ} {k : List (Frame τ)} : s.stack t = k →
    Effect s t a (s.push t (.start T :: k))
  | waits {a : Act τ} {T : τ} {k : List (Frame τ)} : s.stack t = .start T :: k →
    Effect s t a (s.push t (.lock T :: k))
  | gets {addr : Nat} {T : τ} {k : List (Frame τ)} {i : Inst τ} : s.stack t = .start T :: k →
    s.instance_shared_ptr T = some i → Effect s t (.go addr) (s.ret t i k)
  | locks {a : Act τ} {T : τ} {k : List (Frame τ)} : s.stack t = .lock T :: k →
    s.singleton_mutex T = none → Effect s t a (s.locked t T k)
  | finds {addr : Nat} {T : τ} {k : List (Frame τ)} {i : Inst τ} : s.stack t = .check T :: k →
    s.instance_shared_ptr T = some i → Effect s t (.go addr) ((s.unlock T).ret t i k)
  | adds {addr : Nat} {T : τ} {k : List (Frame τ)} : s.stack t = .check T :: k →
    s.instance_shared_ptr T = none → Effect s t (.go addr) (s.add t T k)
  | sets {addr : Nat} {T : τ} {k : List (Frame τ)} {h : Helper τ} :
    s.stack t = .construct T h :: k →
    Effect s t (.go addr) (((s.set T ⟨h, addr⟩).unlock T).ret t ⟨h, addr⟩ k)
  | takes {a : Act τ} {l m : List (Helper τ)} : s.task t ≠ .releasing →
    l.Sublist s.lst_singleton_releasehelper_ →
    (s.lst_singleton_releasehelper_.Nodup → m.Nodup ∧ ∀ h ∈ l, h ∉ m) →
    (∀ h, h ∈ s.lst_singleton_releasehelper_ ↔ h ∈ l ∨ h ∈ m) → Effect s t a (s.take t l m)
  | releases {a : Act τ} {h : Helper τ} {l : List (Helper τ)} : s.dying t = none →
    s.todo t = h :: l → s.singleton_mutex h.type = none → Effect s t a (s.doRelease t h l)
  | deletes {a : Act τ} {h : Helper τ} : s.dying t = some h → Effect s t a (s.delete t h)
  | tasks {a : Act τ} {b : Task} : b ≠ .releasing →
    (s.task t = .releasing → s.todo t = [] ∧ s.dying t = none) → Effect s t a (s.goto t b)

theorem find_effect {a : Act τ} {p : Nat} (hs : s.goTask t (.search p) = some s')
    (ht : s.task t = .search p) : Effect s t a s' := by
  rw [State.goTask] at hs
  split at hs
  · rename_i it hit
    cases hs
    have hmem := List.mem_of_find?_eq_some hit
    refine .takes (by rw [ht]; nofun) List.erase_sublist ?_ ?_
    · intro hn
      refine ⟨List.nodup_singleton _, fun x hx hxm => ?_⟩
      rw [List.mem_singleton.mp hxm] at hx
      exact (hn.mem_erase_iff.mp hx).1 rfl
    · intro x
      rw [List.mem_singleton]
      constructor
      · intro hx
        by_cases he : x = it
        · exact .inr he
        · exact .inl ((List.mem_erase_of_ne he).mpr hx)
      · rintro (hx | hx)
        · exact List.mem_of_mem_erase hx
        · rw [hx]
          exact hmem
  · cases hs
    exact .tasks nofun (fun h => by rw [ht] at h; cases h)

theorem step_effect {a : Act τ} (hs : step s (t, a) = some s') : Effect s t a s' := by
  cases a with
  | Instance T =>
    rw [step] at hs
    split at hs
    · rename_i hk
      cases hs
      exact .calls hk
    · rename_i hk
      cases hs
      exact .calls hk
    · cases hs
  | Release T =>
    rw [step] at hs
    split at hs
    · rename_i htk _
      split at hs
      · cases hs
        exact .tasks nofun (fun h => by rw [htk] at h; cases h)
      · cases hs
        exact .nothing
    · cases hs
  | ReleaseAll =>
    rw [step] at hs
    split at hs
    · rename_i htk _
      cases hs
      refine .takes (by rw [htk]; nofun) (List.nil_sublist _) ?_ ?_
      · exact fun hn => ⟨List.nodup_reverse.mpr hn, nofun⟩
      · intro h
        rw [List.mem_reverse]
        exact ⟨.inr, fun hx => hx.resolve_left nofun⟩
    · cases hs
  | go addr =>
    rw [step] at hs
    split at hs
    · rename_i f k hk
      cases f with
      | start T =>
        rw [State.goInstance] at hs
        split at hs
        · rename_i i hi
          cases hs
          exact .gets hk hi
        · cases hs
          exact .waits hk
      | lock T =>
        rw [State.goInstance] at hs
        split at hs
        · rename_i hm
          cases hs
          exact .locks hk hm
        · cases hs
      | check T =>
        rw [State.goInstance] at hs
        split at hs
        · rename_i i hi
          cases hs
          exact .finds hk hi
        · rename_i hi
          cases hs
          exact .adds hk hi
      | construct T h =>
        cases hs
        exact .sets hk
    · cases htk : s.task t with
      | idle =>
        rw [htk] at hs
        cases hs
      | search a =>
        rw [htk] at hs
        exact find_effect hs htk
      | releasing =>
        rw [htk, State.goTask] at hs
        split at hs
        · rename_i h hd
          cases hs
          exact .deletes hd
        · rename_i hd
          split at hs
          · rename_i ht
            cases hs
            exact .tasks nofun (fun _ => ⟨ht, hd⟩)
          · rename_i h l ht
            split at hs
            · rename_i hm
              cases hs
              exact .releases hd ht hm
            · cases hs

theorem Places.effect {a : Act τ} (hp : Places s) (he : Effect s t a s') : Places s' := by
  cases he with
  | nothing => exact hp
  | calls => exact hp.same rfl rfl rfl rfl rfl (fun _ h => h)
  | waits => exact hp.same rfl rfl rfl rfl rfl (fun _ h => h)
  | gets => exact hp.same rfl rfl rfl rfl rfl (fun _ h => h)
  | locks => exact hp.same rfl rfl rfl rfl rfl (fun _ h => h)
  | finds => exact hp.same rfl rfl rfl rfl rfl (fun _ h => h)
  | adds => exact hp.add
  | sets => exact hp.same rfl rfl rfl rfl rfl (fun _ h => h)
  | takes ht hl hnodup hmem =>
    have hn : s.lst_singleton_releasehelper_.Nodup := hp.list.imp (fun hlt he => by
      rw [he] at hlt
      exact Nat.lt_irrefl _ hlt)
    exact hp.take (hp.busy t ht).1 hl (hnodup hn).1 hmem (hnodup hn).2
  | releases hd ht _ => exact hp.doRelease ht hd
  | deletes hd => exact hp.delete hd
  | @tasks _ b ha hb =>
    refine ⟨hp.unique, hp.list, hp.todo, hp.alive, hp.nodup, hp.fresh, ?_⟩
    intro t' ht'
    change Function.update s.task t b t' ≠ _ at ht'
    by_cases he : t' = t
    · rw [he]
      by_cases htk : s.task t = .releasing
      · exact hb htk
      · exact hp.busy t htk
    · rw [Function.update_of_ne he] at ht'
      exact hp.busy t' ht'

theorem pending_take {l m : List (Helper τ)} (ht : s.todo t = [])
    (hmem : ∀ h, h ∈ s.lst_singleton_releasehelper_ ↔ h ∈ l ∨ h ∈ m) (x : Helper τ) :
    (s.take t l m).Pending x ↔ s.Pending x := by
  have hself : (s.take t l m).todo t = m := Function.update_self ..
  have hother : ∀ t', t' ≠ t → (s.take t l m).todo t' = s.todo t' :=
    fun t' h => Function.update_of_ne h ..
  constructor
  · rintro (hx | ⟨t', hx⟩)
    · exact .inl ((hmem x).mpr (.inl hx))
    · by_cases he : t' = t
      · rw [he, hself] at hx
        exact .inl ((hmem x).mpr (.inr hx))
      · rw [hother t' he] at hx
        exact .inr ⟨t', hx⟩
  · rintro (hx | ⟨t', hx⟩)
    · rcases (hmem x).mp hx with hx | hx
      · exact .inl hx
      · exact .inr ⟨t, by rw [hself]; exact hx⟩
    · refine .inr ⟨t', ?_⟩
      by_cases he : t' = t
      · rw [he, ht] at hx
        cases hx
      · rw [hother t' he]
        exact hx

theorem Pairs.effect {a : Act τ} (hp : Pairs s) (hpl : Places s) (he : Effect s t a s') :
    Pairs s' := by
  cases he with
  | nothing => exact hp
  | calls hk => exact hp.restack hk rfl rfl (fun _ => .rfl) rfl (by simp) rfl
  | waits hk => exact hp.restack hk rfl rfl (fun _ => .rfl) rfl (by simp) rfl
  | gets hk => exact hp.restack hk rfl rfl (fun _ => .rfl) rfl (by simp) rfl
  | locks hk hm => exact hp.locked hk hm
  | finds hk _ => exact hp.finds hk
  | adds hk hptr => exact hp.add hk hptr
  | sets hk => exact hp.set hk
  | takes ht _ _ hmem =>
    exact hp.same rfl rfl (pending_take (hpl.busy t ht).1 hmem) (fun _ _ _ => .rfl) (fun _ => rfl)
  | releases _ ht hm => exact hp.doRelease hpl ht hm
  | deletes => exact hp.same rfl rfl (fun _ => .rfl) (fun _ _ _ => .rfl) (fun _ => rfl)
  | tasks => exact hp.same rfl rfl (fun _ => .rfl) (fun _ _ _ => .rfl) (fun _ => rfl)

end
end Singleton
