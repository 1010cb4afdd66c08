import LearnDiary.Singleton.Places

/-!
# What the release helpers reset

* `Ledger.effect`    an instance is reset once, by its own helper;
* `Alone.run`        a thread alone with its helpers resets their instances, one after the other;
* `run_singletons`   the registry, as long as constructors obtain what is there before them.
-/

set_option linter.unusedSectionVars false

namespace Singleton

section
variable {τ θ : Type*}

/-- the instances that were constructed, and those that were reset -/
structure Ledger (s : State τ θ) : Prop where
  made : ∀ i ∈ s.made, s.instance_shared_ptr i.type = some i ∨ ∃ h, (i, h) ∈ s.resets
  here : ∀ T i, s.instance_shared_ptr T = some i → i ∈ s.made
  own : ∀ i h, (i, h) ∈ s.resets → h = i.helper ∧ h.id < s.next ∧ ¬ s.Pending h
  nodup : (s.resets.map Prod.fst).Nodup

end

section
variable {τ θ : Type*} [DecidableEq τ] [DecidableEq θ] {s s' : State τ θ} {t : θ} {a : Act τ}

theorem Ledger.init : Ledger ({} : State τ θ) := ⟨nofun, nofun, nofun, .nil⟩

theorem Ledger.same (hl : Ledger s) (hm : s'.made = s.made)
    (hptr : s'.instance_shared_ptr = s.instance_shared_ptr) (hr : s'.resets = s.resets)
    (hn : s'.next = s.next) (hpend : ∀ h, s'.Pending h ↔ s.Pending h) : Ledger s' := by
  refine ⟨by rw [hm, hptr, hr]; exact hl.made, by rw [hm, hptr]; exact hl.here, ?_,
    by rw [hr]; exact hl.nodup⟩
  intro i h hh
  rw [hr] at hh
  rw [hn, hpend]
  exact hl.own i h hh

theorem Ledger.add (hl : Ledger s) {T : τ} {k : List (Frame τ)} : Ledger (s.add t T k) := by
  refine ⟨hl.made, hl.here, ?_, hl.nodup⟩
  intro i h hh
  obtain ⟨h₁, h₂, h₃⟩ := hl.own i h hh
  refine ⟨h₁, Nat.lt_succ_of_lt h₂, ?_⟩
  rintro (hx | hx)
  · rcases List.mem_append.mp hx with hx | hx
    · exact h₃ (.inl hx)
    · rw [List.mem_singleton.mp hx] at h₂
      exact Nat.lt_irrefl _ h₂
  · exact h₃ (.inr hx)

theorem Ledger.set (hl : Ledger s) (hp : Pairs s) {T : τ} {k : List (Frame τ)} {h : Helper τ}
    {addr : Nat} (hk : s.stack t = .construct T h :: k) :
    Ledger (((s.set T ⟨h, addr⟩).unlock T).ret t ⟨h, addr⟩ k) := by
  obtain ⟨hT, hptr, -⟩ := hp.building t T h (by rw [hk]; exact List.mem_cons_self)
  refine ⟨?_, ?_, hl.own, hl.nodup⟩
  · intro i hi
    show Function.update s.instance_shared_ptr T _ i.type = some i ∨ _
    rcases List.mem_cons.mp hi with rfl | hi
    · left
      rw [show Inst.type ⟨h, addr⟩ = T from hT, Function.update_self]
    · rcases hl.made i hi with hc | hr
      · have hne : i.type ≠ T := by
          intro he
          rw [he, hptr] at hc
          cases hc
        rw [Function.update_of_ne hne]
        exact .inl hc
      · exact .inr hr
  · intro T' i hi
    change Function.update s.instance_shared_ptr T _ T' = some i at hi
    by_cases he : T' = T
    · rw [he, Function.update_self] at hi
      cases hi
      exact List.mem_cons_self
    · rw [Function.update_of_ne he] at hi
      exact List.mem_cons_of_mem _ (hl.here T' i hi)

/-- **`DoRelease` resets the helper's own instance** -/
theorem Ledger.doRelease (hl : Ledger s) (hp : Pairs s) (hpl : Places s) {h : Helper τ}
    {l : List (Helper τ)} (ht : s.todo t = h :: l) (hm : s.singleton_mutex h.type = none) :
    Ledger (s.doRelease t h l) := by
  have hpend : s.Pending h := .inr ⟨t, by rw [ht]; exact List.mem_cons_self⟩
  obtain ⟨i, hi, hih⟩ := hp.owns hpend hm
  have hres : (s.doRelease t h l).resets = (i, h) :: s.resets := by
    rw [State.doRelease]
    dsimp only
    rw [hi]
  refine ⟨?_, ?_, ?_, ?_⟩
  · intro j hj
    rw [hres]
    show Function.update s.instance_shared_ptr h.type none j.type = some j ∨ _
    rcases hl.made j hj with hc | ⟨x, hx⟩
    · by_cases he : j.type = h.type
      · rw [he, hi] at hc
        cases hc
        exact .inr ⟨h, List.mem_cons_self⟩
      · rw [Function.update_of_ne he]
        exact .inl hc
    · exact .inr ⟨x, List.mem_cons_of_mem _ hx⟩
  · intro T j hj
    change Function.update s.instance_shared_ptr h.type none T = some j at hj
    by_cases he : T = h.type
    · rw [he, Function.update_self] at hj
      cases hj
    · rw [Function.update_of_ne he] at hj
      exact hl.here T j hj
  · intro j x hx
    rw [hres] at hx
    rw [pending_doRelease hpl ht]
    rcases List.mem_cons.mp hx with hx | hx
    · cases hx
      refine ⟨hih.symm, ?_, fun hn => hn.2 rfl⟩
      refine hpl.fresh h ((hpl.alive h).mpr ?_)
      exact ⟨.todo t, by rw [State.At, ht]; exact List.mem_cons_self⟩
    · obtain ⟨h₁, h₂, h₃⟩ := hl.own j x hx
      exact ⟨h₁, h₂, fun hn => h₃ hn.1⟩
  · rw [hres, List.map_cons, List.nodup_cons]
    refine ⟨?_, hl.nodup⟩
    intro hx
    obtain ⟨⟨j, x⟩, hmem, hj⟩ := List.mem_map.mp hx
    obtain ⟨h₁, -, h₃⟩ := hl.own j x hmem
    rw [h₁, show j = i from hj, hih] at h₃
    exact h₃ hpend

theorem Ledger.effect (hl : Ledger s) (hp : Pairs s) (hpl : Places s) (he : Effect s t a s') :
    Ledger s' := by
  cases he with
  | nothing => exact hl
  | calls => exact hl.same rfl rfl rfl rfl (fun _ => .rfl)
  | waits => exact hl.same rfl rfl rfl rfl (fun _ => .rfl)
  | gets => exact hl.same rfl rfl rfl rfl (fun _ => .rfl)
  | locks => exact hl.same rfl rfl rfl rfl (fun _ => .rfl)
  | finds => exact hl.same rfl rfl rfl rfl (fun _ => .rfl)
  | adds => exact hl.add
  | sets hk => exact hl.set hp hk
  | takes ht _ _ hmem => exact hl.same rfl rfl rfl rfl (pending_take (hpl.busy t ht).1 hmem)
  | releases _ ht hm => exact hl.doRelease hp hpl ht hm
  | deletes => exact hl.same rfl rfl rfl rfl (fun _ => .rfl)
  | tasks => exact hl.same rfl rfl rfl rfl (fun _ => .rfl)

structure Inv (s : State τ θ) : Prop where
  places : Places s
  pairs : Pairs s
  ledger : Ledger s

theorem Inv.kept (hi : Inv s) (hs : step s (t, a) = some s') : Inv s' := by
  have he := step_effect hs
  exact ⟨hi.places.effect he, hi.pairs.effect hi.places he, hi.ledger.effect hi.pairs hi.places he⟩

/-- **the invariant holds in every run** -/
theorem Inv.run (h : Runs.AnyRun step {} s) : Inv s := by
  refine h.keep ?_ ⟨.init, .init, .init⟩
  rintro s ⟨t, a⟩ s' hi - hs
  exact hi.kept hs

/-! ## where the constructors obtain what is there before them -/

/-- a type has one helper, and the constructors obtained what was registered before -/
structure Before (s : State τ θ) : Prop where
  one : (s.helpers.map Helper.type).Nodup
  before : ∀ n u, (n, u) ∈ s.obtained → u.helper.id < n

theorem Before.ret (hb : Before s) {i : Inst τ} {k : List (Frame τ)}
    (hk : ∀ T h k', k = .construct T h :: k' → i.helper.id < h.id) : Before (s.ret t i k) := by
  refine ⟨hb.one, ?_⟩
  intro n u hu
  unfold State.ret at hu
  dsimp only at hu
  split at hu
  · rcases List.mem_cons.mp hu with hu | hu
    · cases hu
      exact hk _ _ _ rfl
    · exact hb.before n u hu
  · exact hb.before n u hu

/-- a helper of a type without an instance, whose mutex is held for the test, waits for `delete` -/
theorem Inv.dying (hi : Inv s) {T : τ} {k : List (Frame τ)} {h : Helper τ}
    (hk : s.stack t = .check T :: k) (hptr : s.instance_shared_ptr T = none) (hh : h ∈ s.helpers)
    (hT : h.type = T) : ∃ t', s.dying t' = some h := by
  have hpend : ¬ s.Pending h := by
    intro hp
    rcases hi.pairs.pending h hp with ⟨t', ht'⟩ | ⟨i, hc, -⟩
    · exact hi.pairs.not_building hk t' h (hT ▸ ht')
    · rw [hT, hptr] at hc
      cases hc
  obtain ⟨w, hw⟩ := (hi.places.alive h).mp hh
  cases w with
  | list => exact absurd (.inl hw) hpend
  | todo t' => exact absurd (.inr ⟨t', hw⟩) hpend
  | dying t' => exact ⟨t', hw⟩

theorem Before.effect (hb : Before s) (hi : Inv s) (ha : Agrees s (t, a)) (he : Effect s t a s') :
    Before s' := by
  cases he with
  | nothing => exact hb
  | calls => exact ⟨hb.one, hb.before⟩
  | waits => exact ⟨hb.one, hb.before⟩
  | @gets addr T k i hk hptr =>
    apply hb.ret
    intro T' h k' hk'
    exact ha.2 (.start T) T' h k' i.helper (hk' ▸ hk) (by rw [State.obtains, hptr]; rfl)
  | locks => exact ⟨hb.one, hb.before⟩
  | @finds addr T k i hk hptr =>
    have hun : Before (s.unlock T) := ⟨hb.one, hb.before⟩
    apply hun.ret
    intro T' h k' hk'
    exact ha.2 (.check T) T' h k' i.helper (hk' ▸ hk) (by rw [State.obtains, hptr]; rfl)
  | @adds addr T k hk hptr =>
    refine ⟨?_, hb.before⟩
    show (T :: s.helpers.map Helper.type).Nodup
    refine List.nodup_cons.mpr ⟨?_, hb.one⟩
    intro hT
    obtain ⟨h, hh, he⟩ := List.mem_map.mp hT
    obtain ⟨t', ht'⟩ := hi.dying hk hptr hh he
    exact ha.1 T k hk hptr t' h ht' he
  | @sets addr T k h hk =>
    have hset : Before ((s.set T ⟨h, addr⟩).unlock T) := ⟨hb.one, hb.before⟩
    apply hset.ret
    intro T' h' k' hk'
    exact ha.2 (.construct T h) T' h' k' h (hk' ▸ hk) rfl
  | takes => exact ⟨hb.one, hb.before⟩
  | releases => exact ⟨hb.one, hb.before⟩
  | deletes => exact ⟨hb.one.sublist (List.erase_sublist.map _), hb.before⟩
  | tasks => exact ⟨hb.one, hb.before⟩

theorem Before.run (h : Runs.Run step Agrees {} s) : Inv s ∧ Before s := by
  refine h.keep (P := fun s => Inv s ∧ Before s) ?_ ⟨⟨.init, .init, .init⟩, .nil, nofun⟩
  rintro s ⟨t, a⟩ s' ⟨hi, hb⟩ ha hs
  exact ⟨hi.kept hs, hb.effect hi ha (step_effect hs)⟩

/-! ## `ReleaseAll` -/

/-- what the helpers `l` reset, one after the other -/
def State.reset (s : State τ θ) (l : List (Helper τ)) : List (Inst τ × Helper τ) :=
  l.filterMap (fun h => (s.instance_shared_ptr h.type).map (fun i => (i, h)))

theorem reset_cons (h : Helper τ) (l : List (Helper τ)) :
    s.reset (h :: l) = s.reset [h] ++ s.reset l := by
  rw [State.reset, State.reset, State.reset, ← List.filterMap_append]
  rfl

theorem doRelease_resets (h : Helper τ) (l : List (Helper τ)) :
    (s.doRelease t h l).resets = (s.reset [h]).reverse ++ s.resets := by
  rw [State.doRelease, State.reset, List.filterMap_cons]
  cases s.instance_shared_ptr h.type with
  | none => rfl
  | some i => rfl

/-- the thread is alone with the helpers `l` -/
structure Alone (s : State τ θ) (t : θ) (l : List (Helper τ)) : Prop where
  stack : s.stack t = []
  task : s.task t = .releasing
  todo : s.todo t = l
  dying : s.dying t = none
  free : ∀ T, s.singleton_mutex T = none

/-- what its `2 * l.length + 1` steps leave -/
structure Released (s s' : State τ θ) (t : θ) (l : List (Helper τ)) : Prop where
  resets : s'.resets = (s.reset l).reverse ++ s.resets
  pointer : ∀ T, s'.instance_shared_ptr T =
    if T ∈ l.map Helper.type then none else s.instance_shared_ptr T
  stack : s'.stack = s.stack
  task : s'.task = Function.update s.task t .idle

theorem Alone.nil (ha : Alone s t []) :
    Runs.exec step s [(t, .go 0)] = some (s.goto t .idle) ∧ Released s (s.goto t .idle) t [] := by
  constructor
  · show (step s (t, .go 0)).bind _ = _
    rw [step, ha.stack]
    dsimp only
    rw [ha.task, State.goTask, ha.dying]
    dsimp only
    rw [ha.todo]
    rfl
  · exact ⟨rfl, fun _ => rfl, rfl, rfl⟩

theorem Alone.cons {h : Helper τ} {l : List (Helper τ)} (ha : Alone s t (h :: l)) :
    Runs.exec step s [(t, .go 0), (t, .go 0)] = some ((s.doRelease t h l).delete t h) ∧
      Alone ((s.doRelease t h l).delete t h) t l := by
  have hstack : (s.doRelease t h l).stack t = [] := ha.stack
  have htask : (s.doRelease t h l).task t = .releasing := ha.task
  have hdying : (s.doRelease t h l).dying t = some h := Function.update_self ..
  constructor
  · have h₁ : step s (t, .go 0) = some (s.doRelease t h l) := by
      rw [step, ha.stack]
      dsimp only
      rw [ha.task, State.goTask, ha.dying]
      dsimp only
      rw [ha.todo]
      dsimp only
      rw [if_pos (ha.free _)]
    have h₂ : step (s.doRelease t h l) (t, .go 0) = some ((s.doRelease t h l).delete t h) := by
      rw [step, hstack]
      dsimp only
      rw [htask, State.goTask, hdying]
    show (step s (t, .go 0)).bind _ = _
    rw [h₁]
    show (step _ (t, .go 0)).bind _ = _
    rw [h₂]
    rfl
  · exact ⟨ha.stack, ha.task, Function.update_self .., Function.update_self .., ha.free⟩

/-- **a thread alone with its helpers resets their instances, one after the other** -/
theorem Alone.run {l : List (Helper τ)} (ha : Alone s t l) (hn : (l.map Helper.type).Nodup) :
    ∃ s', Runs.exec step s (List.replicate (2 * l.length + 1) (t, .go 0)) = some s' ∧
      Released s s' t l := by
  induction l generalizing s with
  | nil => exact ⟨_, ha.nil.1, ha.nil.2⟩
  | cons h l ih =>
    rw [List.map_cons, List.nodup_cons] at hn
    obtain ⟨hne, hn⟩ := hn
    obtain ⟨hexec, ha'⟩ := ha.cons
    obtain ⟨s', hs', hr⟩ := ih ha' hn
    have hptr : ∀ T, ((s.doRelease t h l).delete t h).instance_shared_ptr T =
        if T = h.type then none else s.instance_shared_ptr T := by
      intro T
      show Function.update s.instance_shared_ptr h.type none T = _
      by_cases hT : T = h.type
      · rw [if_pos hT, hT, Function.update_self]
      · rw [if_neg hT, Function.update_of_ne hT]
    have hrest : ((s.doRelease t h l).delete t h).reset l = s.reset l := by
      refine List.filterMap_congr (fun x hx => ?_)
      rw [hptr, if_neg]
      intro he
      exact hne (List.mem_map.mpr ⟨x, hx, he⟩)
    refine ⟨s', ?_, ?_, ?_, hr.stack, hr.task⟩
    · rw [List.length_cons, show 2 * (l.length + 1) + 1 = 2 + (2 * l.length + 1) by omega,
        List.replicate_add, Runs.exec_append]
      show (Runs.exec step s [(t, .go 0), (t, .go 0)]).bind _ = _
      rw [hexec]
      exact hs'
    · rw [hr.resets, hrest]
      show _ ++ (s.doRelease t h l).resets = _
      rw [doRelease_resets, reset_cons h l, List.reverse_append, List.append_assoc]
    · intro T
      rw [hr.pointer, hptr, List.map_cons]
      by_cases hT : T = h.type
      · rw [if_pos hT, ite_self, if_pos (List.mem_cons.mpr (.inl hT))]
      · rw [if_neg hT]
        refine if_congr ?_ rfl rfl
        rw [List.mem_cons]
        exact ⟨.inr, fun hx => hx.resolve_left hT⟩

theorem pair_sublist {l : List (Helper τ)} (hl : l.Pairwise (fun h h' => h.id < h'.id))
    {u h : Helper τ} (hu : u ∈ l) (hh : h ∈ l) (hlt : u.id < h.id) : [u, h].Sublist l := by
  induction l with
  | nil => cases hu
  | cons x l ih =>
    obtain ⟨hx, hl⟩ := List.pairwise_cons.mp hl
    rcases List.mem_cons.mp hu with hux | hul <;> rcases List.mem_cons.mp hh with hhx | hhl
    · rw [hux, hhx] at hlt
      exact absurd hlt (Nat.lt_irrefl _)
    · rw [hux]
      exact (List.singleton_sublist.mpr hhl).cons_cons x
    · rw [hhx] at hlt
      exact absurd (hx u hul) (Nat.lt_asymm hlt)
    · exact (ih hl hul hhl).cons x

/-! ## the registry -/

theorem Inv.busy_of_idle (hi : Inv s) (hidle : s.Idle) (t : θ) :
    s.todo t = [] ∧ s.dying t = none := by
  apply hi.places.busy t
  intro ht
  rw [(hidle t).2] at ht
  cases ht

theorem Inv.pending_of_idle (hi : Inv s) (hidle : s.Idle) {h : Helper τ} :
    s.Pending h ↔ h ∈ s.lst_singleton_releasehelper_ := by
  refine ⟨?_, .inl⟩
  rintro (hh | ⟨t, hh⟩)
  · exact hh
  · rw [(hi.busy_of_idle hidle t).1] at hh
    cases hh

theorem Inv.free_of_idle (hi : Inv s) (hidle : s.Idle) (T : τ) : s.singleton_mutex T = none := by
  cases hm : s.singleton_mutex T with
  | none => rfl
  | some t =>
    have := (hi.pairs.holds t T).mpr hm
    rw [(hidle t).1] at this
    cases this

theorem Inv.helper_iff (hi : Inv s) (hidle : s.Idle) {h : Helper τ} :
    h ∈ s.helpers ↔ h ∈ s.lst_singleton_releasehelper_ := by
  refine (hi.places.alive h).trans ⟨?_, fun hh => ⟨.list, hh⟩⟩
  rintro ⟨w, hw⟩
  cases w with
  | list => exact hw
  | todo t => exact (hi.pending_of_idle hidle).mp (.inr ⟨t, hw⟩)
  | dying t =>
    rw [State.At, (hi.busy_of_idle hidle t).2] at hw
    cases hw

/-- **a type has a helper exactly if it has an instance** -/
theorem Inv.pointer_iff (hi : Inv s) (hidle : s.Idle) (T : τ) :
    (∃ h ∈ s.helpers, h.type = T) ↔ (s.instance_shared_ptr T).isSome := by
  constructor
  · rintro ⟨h, hh, rfl⟩
    have hpend := (hi.pending_of_idle hidle).mpr ((hi.helper_iff hidle).mp hh)
    obtain ⟨i, hc, -⟩ := hi.pairs.owns hpend (hi.free_of_idle hidle _)
    rw [hc]
    rfl
  · intro hs
    obtain ⟨i, hc⟩ := Option.isSome_iff_exists.mp hs
    obtain ⟨hT, hpend⟩ := hi.pairs.current T i hc
    exact ⟨i.helper, (hi.helper_iff hidle).mpr ((hi.pending_of_idle hidle).mp hpend), hT⟩

theorem Inv.one_instance (hi : Inv s) {i j : Inst τ} (hii : i ∈ s.made) (hj : j ∈ s.made)
    (hT : i.type = j.type) (hir : ∀ h, (i, h) ∉ s.resets) (hjr : ∀ h, (j, h) ∉ s.resets) :
    i = j := by
  have hc := (hi.ledger.made i hii).resolve_right (fun ⟨h, hh⟩ => hir h hh)
  have hc' := (hi.ledger.made j hj).resolve_right (fun ⟨h, hh⟩ => hjr h hh)
  rw [hT, hc'] at hc
  exact (Option.some.inj hc).symm

theorem Inv.releaseAll (hi : Inv s) (hone : (s.helpers.map Helper.type).Nodup) (hidle : s.Idle)
    (t : θ) : ∃ n s', Runs.exec step s ((t, .ReleaseAll) :: List.replicate n (t, .go 0)) = some s' ∧
      s'.Idle ∧ (∀ T, s'.instance_shared_ptr T = none) ∧
      s'.resets = s.reset s.lst_singleton_releasehelper_ ++ s.resets := by
  have hstep : step s (t, .ReleaseAll) =
      some (s.take t [] s.lst_singleton_releasehelper_.reverse) := by
    rw [step, (hidle t).1, (hidle t).2]
  have ha : Alone (s.take t [] s.lst_singleton_releasehelper_.reverse) t
      s.lst_singleton_releasehelper_.reverse :=
    ⟨(hidle t).1, Function.update_self .., Function.update_self ..,
      (hi.busy_of_idle hidle t).2, hi.free_of_idle hidle⟩
  have hnodup : (s.lst_singleton_releasehelper_.map Helper.type).Nodup := by
    refine List.Nodup.map_on ?_ (hi.places.list.imp ?_)
    · intro x hx y hy he
      exact List.inj_on_of_nodup_map hone ((hi.helper_iff hidle).mpr hx)
        ((hi.helper_iff hidle).mpr hy) he
    · intro x y hlt he
      rw [he] at hlt
      exact Nat.lt_irrefl _ hlt
  obtain ⟨s', hexec, hr⟩ := ha.run (by rw [List.map_reverse]; exact List.nodup_reverse.mpr hnodup)
  refine ⟨2 * s.lst_singleton_releasehelper_.reverse.length + 1, s', ?_, ?_, ?_, ?_⟩
  · show (step s (t, .ReleaseAll)).bind _ = _
    rw [hstep]
    exact hexec
  · intro t'
    rw [hr.stack, hr.task]
    refine ⟨(hidle t').1, ?_⟩
    by_cases he : t' = t
    · rw [he, Function.update_self]
    · rw [Function.update_of_ne he]
      show Function.update s.task t _ t' = _
      rw [Function.update_of_ne he]
      exact (hidle t').2
  · intro T
    rw [hr.pointer]
    by_cases hT : T ∈ s.lst_singleton_releasehelper_.reverse.map Helper.type
    · rw [if_pos hT]
    · rw [if_neg hT]
      show s.instance_shared_ptr T = none
      cases hc : s.instance_shared_ptr T with
      | none => rfl
      | some i =>
        obtain ⟨hiT, hpend⟩ := hi.pairs.current T i hc
        refine absurd (List.mem_map.mpr ⟨i.helper, List.mem_reverse.mpr ?_, hiT⟩) hT
        exact (hi.pending_of_idle hidle).mp hpend
  · rw [hr.resets]
    show ((s.reset _).reverse) ++ s.resets = _
    rw [State.reset, List.filterMap_reverse, List.reverse_reverse]
    rfl

/-- what was registered before is reset after -/
theorem Inv.reset_order (hi : Inv s) (hidle : s.Idle) {i u : Inst τ}
    (hc : s.instance_shared_ptr i.type = some i) (hu : s.instance_shared_ptr u.type = some u)
    (hlt : u.helper.id < i.helper.id) :
    [(u, u.helper), (i, i.helper)].Sublist (s.reset s.lst_singleton_releasehelper_) := by
  have hmem : ∀ j, s.instance_shared_ptr j.type = some j →
      j.helper ∈ s.lst_singleton_releasehelper_ := fun j hj =>
    (hi.pending_of_idle hidle).mp (hi.pairs.current _ j hj).2
  have hsub := (pair_sublist hi.places.list (hmem u hu) (hmem i hc) hlt).filterMap
    (fun h => (s.instance_shared_ptr h.type).map (fun i => (i, h)))
  have hself : ∀ j, s.instance_shared_ptr j.type = some j →
      (s.instance_shared_ptr j.helper.type).map (fun i => (i, j.helper)) = some (j, j.helper) := by
    intro j hj
    rw [show s.instance_shared_ptr j.helper.type = some j from hj]
    rfl
  have hpair : [u.helper, i.helper].filterMap
      (fun h => (s.instance_shared_ptr h.type).map (fun i => (i, h))) =
        [(u, u.helper), (i, i.helper)] := by
    rw [List.filterMap_cons, hself u hu, List.filterMap_cons, hself i hc]
    rfl
  rw [hpair] at hsub
  exact hsub

/-- **The registry.**  In every run a type has a helper exactly if it has an instance where no call
is in progress, and an instance is reset at most once, by its own helper.  As long as constructors
obtain what is there before them, `ReleaseAll` alone resets an instance before what its constructor
obtained. -/
theorem run_singletons {τ θ : Type*} [DecidableEq τ] [DecidableEq θ] :
    (∀ s : State τ θ, Runs.AnyRun step {} s →
      (s.Idle → ∀ T, (∃ h ∈ s.helpers, h.type = T) ↔ (s.instance_shared_ptr T).isSome) ∧
      (∀ i ∈ s.made, ∀ j ∈ s.made, i.type = j.type → (∀ h, (i, h) ∉ s.resets) →
        (∀ h, (j, h) ∉ s.resets) → i = j) ∧
      (∀ i ∈ s.made, s.instance_shared_ptr i.type = some i ∨ (i, i.helper) ∈ s.resets) ∧
      (∀ i h, (i, h) ∈ s.resets → h = i.helper ∧ s.instance_shared_ptr i.type ≠ some i) ∧
      (s.resets.map Prod.fst).Nodup) ∧
    ∀ s : State τ θ, Runs.Run step Agrees {} s →
      (s.helpers.map Helper.type).Nodup ∧
      (s.Idle → ∀ t, ∃ n s',
        Runs.exec step s ((t, .ReleaseAll) :: List.replicate n (t, .go 0)) = some s' ∧ s'.Idle ∧
        (∀ T, s'.instance_shared_ptr T = none) ∧
        ∀ i u, s.instance_shared_ptr i.type = some i → s.instance_shared_ptr u.type = some u →
          (i.helper.id, u) ∈ s.obtained →
          [(u, u.helper), (i, i.helper)].Sublist s'.resets) := by
  constructor
  · intro s hs
    have hi := Inv.run hs
    refine ⟨hi.pointer_iff, ?_, ?_, ?_, hi.ledger.nodup⟩
    · exact fun i hii j hj hT hir hjr => hi.one_instance hii hj hT hir hjr
    · intro i hm
      rcases hi.ledger.made i hm with hc | ⟨h, hh⟩
      · exact .inl hc
      · rw [(hi.ledger.own i h hh).1] at hh
        exact .inr hh
    · intro i h hh
      obtain ⟨h₁, -, h₃⟩ := hi.ledger.own i h hh
      refine ⟨h₁, fun hc => h₃ ?_⟩
      rw [h₁]
      exact (hi.pairs.current _ i hc).2
  · intro s hs
    obtain ⟨hi, hb⟩ := Before.run hs
    refine ⟨hb.one, fun hidle t => ?_⟩
    obtain ⟨n, s', hexec, hidle', hptr, hres⟩ := hi.releaseAll hb.one hidle t
    refine ⟨n, s', hexec, hidle', hptr, ?_⟩
    intro i u hc hu hobt
    rw [hres]
    exact (hi.reset_order hidle hc hu (hb.before _ u hobt)).trans (List.sublist_append_left ..)

theorem agrees_single {addr : Nat} (hd : ∀ t, s.dying t = none) (hk : (s.stack t).tail = []) :
    Agrees s (t, .go addr) := by
  constructor
  · intro T k _ _ t' h hh
    rw [hd] at hh
    cases hh
  · intro f T h k u hs
    rw [hs] at hk
    cases hk

theorem agrees_inner {addr : Nat} {f : Frame τ} {T : τ} {h : Helper τ} (hd : ∀ t, s.dying t = none)
    (hk : s.stack t = [f, .construct T h]) (ho : ∀ u, s.obtains f = some u → u.id < h.id) :
    Agrees s (t, .go addr) := by
  constructor
  · intro T k _ _ t' h hh
    rw [hd] at hh
    cases hh
  · intro f' T' h' k u hs hu
    rw [hk] at hs
    cases hs
    exact ho u hu

/-- the constructor of the type 0 obtains the type 1, which is there before it -/
theorem run_singletons_two : ∃ s s' : State Nat Unit, ∃ i u : Inst Nat,
    Runs.Run step Agrees {} s ∧ s.Idle ∧ s.helpers = [⟨1, 0⟩, ⟨0, 1⟩] ∧
    s.instance_shared_ptr i.type = some i ∧ s.instance_shared_ptr u.type = some u ∧
    (i.helper.id, u) ∈ s.obtained ∧ (s.helpers.map Helper.type).Nodup ∧ ∃ n,
    Runs.exec step s (((), .ReleaseAll) :: List.replicate n ((), .go 0)) = some s' ∧
    s'.Idle ∧ (∀ T, s'.instance_shared_ptr T = none) ∧
    [(u, u.helper), (i, i.helper)].Sublist s'.resets := by
  have hfirst : Runs.Run step Agrees ({} : State Nat Unit) _ :=
    .one (a := ((), .Instance 1)) trivial rfl
  have hadd := ((hfirst.tail ⟨((), .go 0), agrees_single (fun _ => rfl) rfl, rfl⟩).tail
    ⟨((), .go 0), agrees_single (fun _ => rfl) rfl, rfl⟩).tail
    ⟨((), .go 0), agrees_single (fun _ => rfl) rfl, rfl⟩
  have hmade := hadd.tail ⟨((), .go 4096), agrees_single (fun _ => rfl) rfl, rfl⟩
  have hcall := hmade.tail ⟨((), .Instance 0), trivial, rfl⟩
  have hadd' := ((hcall.tail ⟨((), .go 0), agrees_single (fun _ => rfl) rfl, rfl⟩).tail
    ⟨((), .go 0), agrees_single (fun _ => rfl) rfl, rfl⟩).tail
    ⟨((), .go 0), agrees_single (fun _ => rfl) rfl, rfl⟩
  have hinner := hadd'.tail ⟨((), .Instance 1), trivial, rfl⟩
  have hobt := hinner.tail ⟨((), .go 0), agrees_inner (fun _ => rfl) rfl (by
    intro u hu
    cases hu
    exact Nat.zero_lt_one), rfl⟩
  have hrun := hobt.tail ⟨((), .go 8192), agrees_single (fun _ => rfl) rfl, rfl⟩
  obtain ⟨hone, hall⟩ := run_singletons.2 _ hrun
  obtain ⟨n, s', hexec, hidle', hptr, hres⟩ := hall (fun _ => ⟨rfl, rfl⟩) ()
  exact ⟨_, s', ⟨⟨1, 0⟩, 8192⟩, ⟨⟨0, 1⟩, 4096⟩, hrun, fun _ => ⟨rfl, rfl⟩, rfl, rfl, rfl,
    List.mem_cons_self, hone, n, hexec, hidle', hptr, hres _ _ rfl rfl List.mem_cons_self⟩

def nested : List (Unit × Act Nat) :=
  [((), .Instance 0), ((), .go 0), ((), .go 0), ((), .go 0), ((), .Instance 1), ((), .go 0),
    ((), .go 0), ((), .go 0), ((), .go 4096), ((), .go 8192)]

/-- what a constructor obtained first is reset before its instance; a helper whose `DoRelease` is
done is there beside the next of its type -/
theorem singletons_astray :
    (∃ s s' : State Nat Unit, Runs.AnyRun step {} s ∧ s.Idle ∧
      ∃ i u, s.instance_shared_ptr i.type = some i ∧ s.instance_shared_ptr u.type = some u ∧
        (i.helper.id, u) ∈ s.obtained ∧
        Runs.exec step s (((), .ReleaseAll) :: List.replicate 5 ((), .go 0)) = some s' ∧ s'.Idle ∧
        s'.resets = [(i, i.helper), (u, u.helper)]) ∧
    ∃ s : State Nat Bool, Runs.AnyRun step {} s ∧
      ∃ h ∈ s.helpers, ∃ h' ∈ s.helpers, h.type = h'.type ∧ h ≠ h' := by
  constructor
  · refine ⟨_, _, Runs.Run.of_exec (l := nested) rfl, fun _ => ⟨rfl, rfl⟩, ⟨⟨0, 0⟩, 8192⟩,
      ⟨⟨1, 1⟩, 4096⟩, rfl, rfl, ?_, rfl, fun _ => ⟨rfl, rfl⟩, rfl⟩
    exact List.mem_cons_self
  · refine ⟨_, Runs.Run.of_exec (l := [(true, .Instance 0), (true, .go 0), (true, .go 0),
      (true, .go 0), (true, .go 4096), (true, .Release 0), (true, .go 0), (true, .go 0),
      (false, .Instance 0), (false, .go 0), (false, .go 0), (false, .go 0)]) rfl, ⟨1, 0⟩, ?_,
      ⟨0, 0⟩, ?_, rfl, ?_⟩
    · exact List.mem_cons_self
    · exact List.mem_cons_of_mem _ List.mem_cons_self
    · decide

end
end Singleton
