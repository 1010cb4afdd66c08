import LearnDiary.Lib.Saturation
import Mathlib.Logic.Function.Basic

/-!
# Services and their core (comm/corepattern/coreservice_base.cc, ServiceImpl.inl)

A core makes the services that are registered for it, on startup or when one is asked for, each
after the services it depends on.  `__Creater` is given the services that are asked for: it collects
the names of their dependencies, adds those that are registered for the core, and tries to make
what it has until a round makes nothing.

* `creater_returns`   it returns, with exactly what can be constructed;
* `Reachable.inv`     every service lies behind its dependencies in `m_releasevec`;
* `creater`           both, for every registry.
-/

namespace CorePattern

inductive TServiceVisible where
  | EPublic
  | EPrivate
deriving DecidableEq

inductive TServiceCreate where
  | EStartup
  | EFirstGet
deriving DecidableEq

/-- a registration: the class by its name and its dependencies, the core that it is for.  Its pointer
`ServiceCreater` is left out: all registrations have `ServiceCreater<T>` there. -/
structure ServiceRegister where
  ServiceName : String
  DependServicesName : List String
  coreservice : String
  servicevisible : TServiceVisible := .EPublic
  servicecreate : TServiceCreate := .EFirstGet

/-- `ServiceBase*`: the services that the core makes, by number, and those made elsewhere -/
inductive ServicePtr where
  | own (n : Nat)
  | outer (n : Nat)
deriving DecidableEq

abbrev TServicesMap := String → Option ServicePtr

/-- a service that was made: its class and its `m_dependservices` -/
structure Service where
  ptr : ServicePtr
  register : ServiceRegister
  m_dependservices : TServicesMap

structure CoreServiceBase where
  m_servicename : String
  m_dependservices : TServicesMap := fun _ => none
  m_services : TServicesMap := fun _ => none
  m_publicservices : TServicesMap := fun _ => none
  m_releasevec : List ServicePtr := []
  /-- the services that were made, in order -/
  objects : List Service := []

/-- the loop of `ServiceCreater` over the dependencies -/
def servicesTemp (_services _parentsservices : TServicesMap) :
    List String → TServicesMap → Option TServicesMap
  | [], servicestemp => some servicestemp
  | it :: l, servicestemp =>
    match _services it with
    | some second =>
      servicesTemp _services _parentsservices l (Function.update servicestemp it (some second))
    | none =>
      match _parentsservices it with
      | some second =>
        servicesTemp _services _parentsservices l (Function.update servicestemp it (some second))
      | none => none

namespace CoreServiceBase

/-- a service is made and entered, unless `ServiceCreater` gives none -/
def construct (c : CoreServiceBase) (it : ServiceRegister) : Option CoreServiceBase :=
  match servicesTemp c.m_services c.m_dependservices it.DependServicesName (fun _ => none) with
  | none => none
  | some servicestemp =>
    let p := ServicePtr.own c.objects.length
    some { c with
      m_releasevec := c.m_releasevec ++ [p]
      m_services := Function.update c.m_services it.ServiceName (some p)
      m_publicservices :=
        if it.servicevisible = .EPublic then
          Function.update c.m_publicservices it.ServiceName (some p)
        else c.m_publicservices
      objects := c.objects ++ [⟨p, it, servicestemp⟩] }

/-- one round over `_vec`: the core, and what stays in `_vec` -/
def createRound : CoreServiceBase → List ServiceRegister → CoreServiceBase × List ServiceRegister
  | c, [] => (c, [])
  | c, it :: l =>
    match c.m_services it.ServiceName with
    | some _ => createRound c l
    | none =>
      match c.construct it with
      | some c' => createRound c' l
      | none =>
        let r := createRound c l
        (r.1, it :: r.2)

/-- the rounds, until `_vec` is empty or a round leaves it as it is -/
def createTurn (s : CoreServiceBase × List ServiceRegister) :
    Loop.Turn (CoreServiceBase × List ServiceRegister) :=
  let count := s.2.length
  let s' := createRound s.1 s.2
  if s'.2.length = 0 then .ret s'
  else if count ≤ s'.2.length then .ret s'
  else .again s'

end CoreServiceBase

section
variable (svrreg : List ServiceRegister) (servicename : String)

/-- the names that the services of `_vec` depend on -/
def dependInit (_vec : List ServiceRegister) : List String :=
  _vec.foldl (fun servicedepend it => Saturation.insertAll servicedepend it.DependServicesName) []

def isOwn (it : ServiceRegister) : Bool := it.coreservice == servicename

/-- the passes over the registry that complete `servicedepend` -/
def dependTurn (servicedepend : List String) : Loop.Turn (List String) :=
  Saturation.turn (isOwn servicename) ServiceRegister.ServiceName
    ServiceRegister.DependServicesName svrreg servicedepend

/-- the last pass over the registry appends what is depended on to `_vec` -/
def appendDepends (servicedepend : List String) (_vec : List ServiceRegister) :
    List String × List ServiceRegister :=
  svrreg.foldl (fun s it =>
    if isOwn servicename it && it.ServiceName ∈ s.1 then
      (Saturation.insertAll s.1 it.DependServicesName, s.2 ++ [it])
    else s) (servicedepend, _vec)

end

/-- `__Creater` returns and leaves the core in the state `c'` -/
def Creater (svrreg : List ServiceRegister) (c : CoreServiceBase) (_vec : List ServiceRegister)
    (c' : CoreServiceBase) : Prop :=
  ∃ servicedepend rest,
    Loop.Returns (dependTurn svrreg c.m_servicename) (dependInit _vec) servicedepend ∧
    Loop.Returns CoreServiceBase.createTurn
      (c, (appendDepends svrreg c.m_servicename servicedepend _vec).2) (c', rest)

/-- `__StartupCreater` -/
def StartupCreater (svrreg : List ServiceRegister) (c c' : CoreServiceBase) : Prop :=
  Creater svrreg c
    (svrreg.filter (fun it => isOwn c.m_servicename it && it.servicecreate == .EStartup)) c'

/-- `__FirstGetCreater` -/
def FirstGetCreater (svrreg : List ServiceRegister) (c : CoreServiceBase) (_servicename : String)
    (c' : CoreServiceBase) : Prop :=
  match c.m_services _servicename with
  | some _ => c' = c
  | none =>
    Creater svrreg c
      (svrreg.find? (fun it => isOwn c.m_servicename it && it.ServiceName == _servicename &&
        it.servicecreate == .EFirstGet)).toList c'

/-- `_ComputeCoreServiceDepend`: what the services of a core depend on, less its own services -/
def ComputeCoreServiceDepend (svrreg : List ServiceRegister) (_servicename : String) :
    List String :=
  let servicedepend := (svrreg.filter (isOwn _servicename)).foldl
    (fun s it => Saturation.insertAll s it.DependServicesName) []
  (svrreg.filter (isOwn _servicename)).foldl
    (fun s it => s.filter (fun d => d != it.ServiceName)) servicedepend

/-- the states of a core: it makes its startup services when it is constructed, is given the
services it depends on and is asked for services -/
inductive Reachable (svrreg : List ServiceRegister) (servicename : String) :
    CoreServiceBase → Prop where
  | startup {c : CoreServiceBase} :
    StartupCreater svrreg { m_servicename := servicename } c → Reachable svrreg servicename c
  /-- `DependServices`, called by `ServiceCreater` with the services of `DependServicesName` -/
  | depend {c : CoreServiceBase} {_dependservices : TServicesMap} :
    Reachable svrreg servicename c →
    (∀ d p, _dependservices d = some p → d ∈ ComputeCoreServiceDepend svrreg servicename) →
    Reachable svrreg servicename { c with m_dependservices := _dependservices }
  | get {c c' : CoreServiceBase} {_servicename : String} :
    Reachable svrreg servicename c → FirstGetCreater svrreg c _servicename c' →
    Reachable svrreg servicename c'

/-- the services in the order in which the destructor deletes them -/
def CoreServiceBase.released (c : CoreServiceBase) : List ServicePtr := c.m_releasevec.reverse

/-! ## what can be constructed -/

/-- the names that the services of `_vec` depend on, directly or through services of the core -/
def Depends (svrreg : List ServiceRegister) (servicename : String) (_vec : List ServiceRegister) :
    String → Prop :=
  Saturation.Reach (isOwn servicename) ServiceRegister.ServiceName
    ServiceRegister.DependServicesName svrreg (fun d => ∃ r ∈ _vec, d ∈ r.DependServicesName)

/-- what is requested, and what of the core that depends on -/
def Wanted (svrreg : List ServiceRegister) (servicename : String) (_vec : List ServiceRegister)
    (it : ServiceRegister) : Prop :=
  it ∈ _vec ∨ it ∈ svrreg ∧ isOwn servicename it = true ∧
    Depends svrreg servicename _vec it.ServiceName

/-- a name is available: there, with the parents, or of a wanted service all of whose dependencies
are available -/
inductive Available (wanted : ServiceRegister → Prop) (c : CoreServiceBase) : String → Prop where
  | there {d : String} : (c.m_services d).isSome → Available wanted c d
  | parent {d : String} : (c.m_dependservices d).isSome → Available wanted c d
  | made {it : ServiceRegister} : wanted it →
    (∀ d ∈ it.DependServicesName, Available wanted c d) → Available wanted c it.ServiceName

/-- a wanted service of the name can be constructed -/
def Constructible (wanted : ServiceRegister → Prop) (c : CoreServiceBase) (n : String) : Prop :=
  ∃ it, wanted it ∧ it.ServiceName = n ∧ ∀ d ∈ it.DependServicesName, Available wanted c d

/-! ## a service is made -/

section
variable {services parents temp t : TServicesMap} {deps : List String}

theorem servicesTemp_isSome : (servicesTemp services parents deps temp).isSome ↔
    ∀ d ∈ deps, (services d).isSome ∨ (parents d).isSome := by
  induction deps generalizing temp with
  | nil => exact ⟨fun _ _ hd => (nomatch hd), fun _ => rfl⟩
  | cons it l ih =>
    rw [List.forall_mem_cons, servicesTemp]
    cases hs : services it with
    | some p =>
      dsimp only
      rw [ih]
      simp
    | none =>
      cases hp : parents it with
      | some p =>
        dsimp only
        rw [ih]
        simp
      | none => simp

theorem servicesTemp_find (h : servicesTemp services parents deps temp = some t) {d : String}
    {q : ServicePtr} (hd : t d = some q) :
    temp d = some q ∨ d ∈ deps ∧ (services d = some q ∨ services d = none ∧ parents d = some q) := by
  induction deps generalizing temp with
  | nil =>
    cases h
    exact .inl hd
  | cons it l ih =>
    rw [servicesTemp] at h
    have key : ∀ p, (services it = some p ∨ services it = none ∧ parents it = some p) →
        servicesTemp services parents l (Function.update temp it (some p)) = some t →
        temp d = some q ∨ d ∈ it :: l ∧
          (services d = some q ∨ services d = none ∧ parents d = some q) := by
      intro p hp h
      rcases ih h with hq | ⟨hm, hq⟩
      · by_cases hdi : d = it
        · rw [hdi, Function.update_self] at hq
          cases hq
          rw [hdi]
          exact .inr ⟨List.mem_cons_self, hp⟩
        · rw [Function.update_of_ne hdi] at hq
          exact .inl hq
      · exact .inr ⟨List.mem_cons_of_mem it hm, hq⟩
    split at h
    · rename_i p hs
      exact key p (.inl hs) h
    · rename_i hs
      split at h
      · rename_i p hp
        exact key p (.inr ⟨hs, hp⟩) h
      · cases h

end

section
variable {c c' c'' : CoreServiceBase} {it : ServiceRegister}

theorem construct_isSome : (c.construct it).isSome ↔
    ∀ d ∈ it.DependServicesName, (c.m_services d).isSome ∨ (c.m_dependservices d).isSome := by
  have htemp : (servicesTemp c.m_services c.m_dependservices it.DependServicesName
      (fun _ => none)).isSome ↔ _ := servicesTemp_isSome
  rw [← htemp, CoreServiceBase.construct]
  split
  · rename_i h
    rw [h]
    simp
  · rename_i t h
    rw [h]
    simp

/-- what making a service does -/
structure Made (c : CoreServiceBase) (it : ServiceRegister) (t : TServicesMap)
    (c' : CoreServiceBase) : Prop where
  temp : servicesTemp c.m_services c.m_dependservices it.DependServicesName (fun _ => none) = some t
  name : c'.m_servicename = c.m_servicename
  parents : c'.m_dependservices = c.m_dependservices
  services : c'.m_services =
    Function.update c.m_services it.ServiceName (some (.own c.objects.length))
  releasevec : c'.m_releasevec = c.m_releasevec ++ [.own c.objects.length]
  objects : c'.objects = c.objects ++ [⟨.own c.objects.length, it, t⟩]

theorem construct_made (h : c.construct it = some c') : ∃ t, Made c it t c' := by
  unfold CoreServiceBase.construct at h
  split at h
  · cases h
  · rename_i t ht
    cases h
    exact ⟨t, ht, rfl, rfl, rfl, rfl, rfl⟩

/-- services of a list are made one after the other, none that is there -/
inductive Builds (l : List ServiceRegister) (c : CoreServiceBase) : CoreServiceBase → Prop where
  | refl : Builds l c c
  | step {c' c'' : CoreServiceBase} {it : ServiceRegister} {t : TServicesMap} : Builds l c c' →
    it ∈ l → c'.m_services it.ServiceName = none → Made c' it t c'' → Builds l c c''

variable {l l' vec rest : List ServiceRegister}

theorem Builds.trans (h : Builds l c c') (h' : Builds l c' c'') : Builds l c c'' := by
  induction h' with
  | refl => exact h
  | step _ hit hn hm ih => exact .step ih hit hn hm

theorem Builds.mono (h : Builds l c c') (hl : ∀ it ∈ l, it ∈ l') : Builds l' c c' := by
  induction h with
  | refl => exact .refl
  | step _ hit hn hm ih => exact .step ih (hl _ hit) hn hm

theorem Builds.keep (h : Builds l c c') {n : String} {p : ServicePtr}
    (hp : c.m_services n = some p) : c'.m_services n = some p := by
  induction h with
  | refl => exact hp
  | @step c' c'' it t _ _ hn hm ih =>
    have hne : n ≠ it.ServiceName := by
      intro he
      rw [← he, ih] at hn
      cases hn
    rw [hm.services, Function.update_of_ne hne]
    exact ih

theorem Builds.isSome (h : Builds l c c') {n : String} (hp : (c.m_services n).isSome) :
    (c'.m_services n).isSome := by
  obtain ⟨p, hp⟩ := Option.isSome_iff_exists.mp hp
  rw [h.keep hp]
  rfl

theorem Builds.parents (h : Builds l c c') : c'.m_dependservices = c.m_dependservices := by
  induction h with
  | refl => rfl
  | step _ _ _ hm ih => exact hm.parents.trans ih

theorem Builds.name (h : Builds l c c') : c'.m_servicename = c.m_servicename := by
  induction h with
  | refl => rfl
  | step _ _ _ hm ih => exact hm.name.trans ih

theorem Made.isSome {t : TServicesMap} (h : Made c it t c') :
    (c'.m_services it.ServiceName).isSome := by
  rw [h.services, Function.update_self]
  rfl

/-- a round that does not keep its first service, of which there is one after the step for it -/
theorem Builds.drops {it : ServiceRegister} {c₁ : CoreServiceBase}
    {r : CoreServiceBase × List ServiceRegister} (h1 : Builds (it :: l) c c₁)
    (hsome : (c₁.m_services it.ServiceName).isSome) (hb : Builds l c₁ r.1) (hr : r.2.Sublist l)
    (hd : ∀ x ∈ l, x ∈ r.2 ∨ (r.1.m_services x.ServiceName).isSome) :
    Builds (it :: l) c r.1 ∧ r.2.Sublist (it :: l) ∧
    (∀ x ∈ it :: l, x ∈ r.2 ∨ (r.1.m_services x.ServiceName).isSome) ∧
    r.2.length ≠ (it :: l).length := by
  refine ⟨h1.trans (hb.mono fun x hx => List.mem_cons_of_mem it hx), hr.cons it, ?_, ?_⟩
  · intro x hx
    rcases List.mem_cons.mp hx with rfl | hx
    · exact .inr (hb.isSome hsome)
    · exact hd x hx
  · have := hr.length_le
    rw [List.length_cons]
    omega

/-- **a round**: it makes services of the list, keeps those it cannot make, and when it keeps all
of them none of them can be made -/
theorem createRound_spec (c : CoreServiceBase) (vec : List ServiceRegister) :
    Builds vec c (c.createRound vec).1 ∧ (c.createRound vec).2.Sublist vec ∧
    (∀ it ∈ vec, it ∈ (c.createRound vec).2 ∨
      ((c.createRound vec).1.m_services it.ServiceName).isSome) ∧
    ((c.createRound vec).2.length = vec.length → (c.createRound vec).1 = c ∧
      ∀ it ∈ vec, c.m_services it.ServiceName = none ∧ c.construct it = none) := by
  induction vec generalizing c with
  | nil => exact ⟨.refl, .slnil, fun _ h => (nomatch h), fun _ => ⟨rfl, fun _ h => (nomatch h)⟩⟩
  | cons it l ih =>
    have hsub : ∀ x ∈ l, x ∈ it :: l := fun x hx => List.mem_cons_of_mem it hx
    rw [CoreServiceBase.createRound]
    cases hs : c.m_services it.ServiceName with
    | some p =>
      dsimp only
      obtain ⟨hb, hr, hd, -⟩ := ih c
      obtain ⟨hb', hr', hd', hlen⟩ := Builds.drops .refl (by rw [hs]; rfl) hb hr hd
      exact ⟨hb', hr', hd', fun he => absurd he hlen⟩
    | none =>
      dsimp only
      cases hc : c.construct it with
      | some c₁ =>
        dsimp only
        obtain ⟨t, hm⟩ := construct_made hc
        obtain ⟨hb, hr, hd, -⟩ := ih c₁
        have h1 : Builds (it :: l) c c₁ := .step .refl List.mem_cons_self hs hm
        obtain ⟨hb', hr', hd', hlen⟩ := h1.drops hm.isSome hb hr hd
        exact ⟨hb', hr', hd', fun he => absurd he hlen⟩
      | none =>
        dsimp only
        obtain ⟨hb, hr, hd, hstuck⟩ := ih c
        refine ⟨hb.mono hsub, hr.cons_cons it, ?_, ?_⟩
        · intro x hx
          rcases List.mem_cons.mp hx with rfl | hx
          · exact .inl List.mem_cons_self
          · rcases hd x hx with h | h
            · exact .inl (List.mem_cons_of_mem it h)
            · exact .inr h
        · intro hlen
          rw [List.length_cons, List.length_cons] at hlen
          obtain ⟨he, hall⟩ := hstuck (by omega)
          exact ⟨he, List.forall_mem_cons.mpr ⟨⟨hs, hc⟩, hall⟩⟩

/-- **the rounds end**: what was made was in the list, and of the rest nothing can be made -/
theorem create_returns (c : CoreServiceBase) (vec : List ServiceRegister) :
    ∃ r, Loop.Returns CoreServiceBase.createTurn (c, vec) r ∧ Builds vec c r.1 ∧
      ∀ it ∈ vec, (r.1.m_services it.ServiceName).isSome ∨ r.1.construct it = none := by
  let P : CoreServiceBase × List ServiceRegister → Prop := fun s =>
    Builds vec c s.1 ∧ s.2.Sublist vec ∧
      ∀ it ∈ vec, it ∈ s.2 ∨ (s.1.m_services it.ServiceName).isSome
  have hround : ∀ s, P s → P (s.1.createRound s.2) := by
    intro s ⟨hb, hr, hd⟩
    obtain ⟨hb', hr', hd', -⟩ := createRound_spec s.1 s.2
    have hb'' := hb'.mono (fun x hx => hr.subset hx)
    refine ⟨hb.trans hb'', hr'.trans hr, ?_⟩
    intro it hit
    rcases hd it hit with h | h
    · exact hd' it h
    · exact .inr (hb'.isSome h)
  have h0 : P (c, vec) := ⟨.refl, .refl vec, fun _ h => .inl h⟩
  have hagain : ∀ s u, P s → CoreServiceBase.createTurn s = .again u →
      P u ∧ u.2.length < s.2.length := by
    intro s u hs he
    unfold CoreServiceBase.createTurn at he
    dsimp only at he
    split at he
    · cases he
    · split at he
      · cases he
      · cases he
        exact ⟨hround s hs, by omega⟩
  have hstops : Loop.Stops CoreServiceBase.createTurn (c, vec) :=
    Loop.Stops.of_measure P (fun s => s.2.length) hagain h0
  obtain ⟨r, hr⟩ := hstops.returns (fun t _ he => by
    unfold CoreServiceBase.createTurn at he
    dsimp only at he
    split at he
    · cases he
    · split at he <;> cases he)
  refine ⟨r, hr, ?_⟩
  obtain ⟨s, hreach, hret⟩ := hr.last
  have hs : P s := hreach.keep (fun u v hu he => (hagain u v hu he).1) h0
  obtain ⟨-, hsub, -, hstuck⟩ := createRound_spec s.1 s.2
  unfold CoreServiceBase.createTurn at hret
  dsimp only at hret
  split at hret
  · rename_i hnil
    cases hret
    obtain ⟨hb, -, hd⟩ := hround s hs
    refine ⟨hb, fun it hit => .inl ?_⟩
    rcases hd it hit with h | h
    · rw [List.length_eq_zero_iff.mp hnil] at h
      cases h
    · exact h
  · split at hret
    · rename_i hle
      cases hret
      obtain ⟨hb, -, hd⟩ := hround s hs
      obtain ⟨he, hall⟩ := hstuck (Nat.le_antisymm hsub.length_le hle)
      refine ⟨hb, fun it hit => ?_⟩
      rcases hs.2.2 it hit with h | h
      · rw [he]
        exact .inr (hall it h).2
      · rw [he]
        exact .inl h
    · cases hret

end

/-! ## what is made -/

section
variable {c c' : CoreServiceBase} {l vec : List ServiceRegister} {wanted : ServiceRegister → Prop}

theorem Builds.sound (h : Builds l c c') (hl : ∀ it ∈ l, wanted it) {n : String}
    (hn : (c'.m_services n).isSome) : (c.m_services n).isSome ∨ Constructible wanted c n := by
  induction h generalizing n with
  | refl => exact .inl hn
  | @step c' c'' it t hb hit _ hm ih =>
    by_cases he : n = it.ServiceName
    · refine .inr ⟨it, hl it hit, he.symm, ?_⟩
      intro d hd
      have htemp := servicesTemp_isSome.mp (Option.isSome_of_eq_some hm.temp) d hd
      rw [hb.parents] at htemp
      rcases htemp with h | h
      · rcases ih h with h | ⟨it', hw, rfl, hd'⟩
        · exact .there h
        · exact .made hw hd'
      · exact .parent h
    · rw [hm.services, Function.update_of_ne he] at hn
      exact ih hn

theorem Available.complete {d : String} (h : Available wanted c d) (hb : Builds l c c')
    (hstuck : ∀ it, wanted it → (c'.m_services it.ServiceName).isSome ∨ c'.construct it = none) :
    (c'.m_services d).isSome ∨ (c'.m_dependservices d).isSome := by
  induction h with
  | there h => exact .inl (hb.isSome h)
  | parent h =>
    rw [hb.parents]
    exact .inr h
  | made hw _ ih =>
    rcases hstuck _ hw with h | h
    · exact .inl h
    · have := construct_isSome.mpr ih
      rw [h] at this
      cases this

theorem Constructible.complete {n : String} (h : Constructible wanted c n) (hb : Builds l c c')
    (hstuck : ∀ it, wanted it → (c'.m_services it.ServiceName).isSome ∨ c'.construct it = none) :
    (c'.m_services n).isSome := by
  obtain ⟨it, hw, rfl, hd⟩ := h
  rcases hstuck it hw with h | h
  · exact h
  · have := construct_isSome.mpr (fun d hd' => (hd d hd').complete hb hstuck)
    rw [h] at this
    cases this

theorem Builds.once (h : Builds l c c') : ∃ new : List Service,
    c'.objects = c.objects ++ new ∧ c'.m_releasevec = c.m_releasevec ++ new.map Service.ptr ∧
    (new.map (fun o => o.register.ServiceName)).Nodup ∧
    ∀ n, (∃ o ∈ new, o.register.ServiceName = n) ↔
      c.m_services n = none ∧ (c'.m_services n).isSome := by
  induction h with
  | refl =>
    refine ⟨[], (List.append_nil _).symm, (List.append_nil _).symm, List.nodup_nil, fun n => ?_⟩
    constructor
    · rintro ⟨o, ho, -⟩
      cases ho
    · rintro ⟨hn, hs⟩
      rw [hn] at hs
      cases hs
  | @step c' c'' it t hb hit hn hm ih =>
    obtain ⟨new, ho, hr, hd, hiff⟩ := ih
    have hc : c.m_services it.ServiceName = none := by
      cases hs : c.m_services it.ServiceName with
      | none => rfl
      | some p =>
        rw [hb.keep hs] at hn
        cases hn
    refine ⟨new ++ [⟨.own c'.objects.length, it, t⟩], ?_, ?_, ?_, ?_⟩
    · rw [hm.objects, ho, List.append_assoc]
    · rw [hm.releasevec, hr, List.map_append, List.append_assoc]
      rfl
    · rw [List.map_append, List.nodup_append]
      refine ⟨hd, List.nodup_singleton _, ?_⟩
      intro x hx y hy hxy
      obtain ⟨o, hmem, hox⟩ := List.mem_map.mp hx
      have := ((hiff x).mp ⟨o, hmem, hox⟩).2
      rw [hxy, List.mem_singleton.mp hy, hn] at this
      cases this
    · intro n
      by_cases he : n = it.ServiceName
      · rw [he]
        refine ⟨fun _ => ⟨hc, hm.isSome⟩, fun _ => ?_⟩
        exact ⟨_, List.mem_append_right _ List.mem_cons_self, rfl⟩
      · rw [hm.services, Function.update_of_ne he, ← hiff]
        constructor
        · rintro ⟨o, ho, hon⟩
          rcases List.mem_append.mp ho with ho | ho
          · exact ⟨o, ho, hon⟩
          · rw [List.mem_singleton.mp ho] at hon
            exact absurd hon.symm he
        · rintro ⟨o, ho, hon⟩
          exact ⟨o, List.mem_append_left _ ho, hon⟩

end

/-! ## the services that are wanted -/

section
variable {svrreg l vec : List ServiceRegister} {servicename : String} {dep : List String}
  {it : ServiceRegister}

theorem mem_dependFold {d : String} {s : List String} : d ∈ l.foldl
    (fun servicedepend it => Saturation.insertAll servicedepend it.DependServicesName) s ↔
      d ∈ s ∨ ∃ r ∈ l, d ∈ r.DependServicesName := by
  induction l generalizing s with
  | nil => simp
  | cons it l ih =>
    rw [List.foldl_cons, ih, Saturation.mem_insertAll, or_assoc]
    simp

theorem nodup_dependInit (vec : List ServiceRegister) : (dependInit vec).Nodup := by
  have key : ∀ s : List String, s.Nodup → (vec.foldl (fun servicedepend it =>
      Saturation.insertAll servicedepend it.DependServicesName) s).Nodup := by
    induction vec with
    | nil => exact fun s hs => hs
    | cons it l ih => exact fun s hs => ih _ (Saturation.nodup_insertAll hs)
  exact key [] List.nodup_nil

/-- the last pass inserts nothing new: it appends what is depended on -/
theorem appendDepends_eq (hc : ∀ it ∈ svrreg, isOwn servicename it = true →
    it.ServiceName ∈ dep → it.DependServicesName ⊆ dep) :
    (appendDepends svrreg servicename dep vec).2 =
      vec ++ svrreg.filter (fun it => isOwn servicename it && it.ServiceName ∈ dep) := by
  unfold appendDepends
  let p := fun it => isOwn servicename it && decide (it.ServiceName ∈ dep)
  induction svrreg generalizing vec with
  | nil => exact (List.append_nil _).symm
  | cons it l ih =>
    have hl := fun x hx => hc x (List.mem_cons_of_mem it hx)
    rw [List.foldl_cons]
    by_cases h : (isOwn servicename it && decide (it.ServiceName ∈ dep)) = true
    · rw [if_pos h, List.filter_cons_of_pos (p := p) h]
      rw [Bool.and_eq_true, decide_eq_true_iff] at h
      dsimp only
      rw [Saturation.insertAll_of_subset (hc it List.mem_cons_self h.1 h.2), ih hl,
        List.append_assoc]
      rfl
    · rw [if_neg h, List.filter_cons_of_neg (p := p) h, ih hl]

/-- **`__Creater` returns**: it made wanted services, and nothing that is wanted is left out that
can be made -/
theorem creater_returns (svrreg : List ServiceRegister) (c : CoreServiceBase)
    (vec : List ServiceRegister) :
    ∃ c' l, Creater svrreg c vec c' ∧ (∀ c'', Creater svrreg c vec c'' → c'' = c') ∧
      (∀ it, it ∈ l ↔ Wanted svrreg c.m_servicename vec it) ∧ Builds l c c' ∧
      ∀ it ∈ l, (c'.m_services it.ServiceName).isSome ∨ c'.construct it = none := by
  obtain ⟨dep, hdep, -, hmem, hclosed⟩ := Saturation.saturate_returns (isOwn c.m_servicename)
    ServiceRegister.ServiceName ServiceRegister.DependServicesName svrreg
    (nodup_dependInit vec)
  obtain ⟨⟨c', rest⟩, hret, hb, hstuck⟩ :=
    create_returns c (appendDepends svrreg c.m_servicename dep vec).2
  refine ⟨c', _, ⟨dep, rest, hdep, hret⟩, ?_, ?_, hb, hstuck⟩
  · rintro c'' ⟨dep', rest', hdep', hret'⟩
    cases hdep'.det hdep
    cases hret'.det hret
    rfl
  · intro it
    rw [appendDepends_eq hclosed, List.mem_append, List.mem_filter, Bool.and_eq_true,
      decide_eq_true_iff, hmem]
    have hseed : (fun d => d ∈ dependInit vec) = fun d => ∃ r ∈ vec, d ∈ r.DependServicesName := by
      funext d
      rw [dependInit, mem_dependFold]
      simp
    rw [hseed]
    rfl

theorem Creater.builds {c c' : CoreServiceBase} (h : Creater svrreg c vec c')
    (hvec : ∀ it ∈ vec, it ∈ svrreg ∧ isOwn c.m_servicename it = true) :
    ∃ l, Builds l c c' ∧ ∀ it ∈ l, it ∈ svrreg ∧ isOwn c.m_servicename it = true := by
  obtain ⟨c₁, l, -, huniq, hl, hb, -⟩ := creater_returns svrreg c vec
  cases huniq c' h
  refine ⟨l, hb, ?_⟩
  intro it hit
  rcases (hl it).mp hit with h | ⟨h, how, -⟩
  · exact hvec it h
  · exact ⟨h, how⟩

theorem own_not_mem (hit : it ∈ svrreg) (how : isOwn servicename it = true) :
    it.ServiceName ∉ ComputeCoreServiceDepend svrreg servicename := by
  have key : ∀ (l : List ServiceRegister) (s : List String), it ∈ l ∨ it.ServiceName ∉ s →
      it.ServiceName ∉ l.foldl (fun s it => s.filter (fun d => d != it.ServiceName)) s := by
    intro l
    induction l with
    | nil =>
      rintro s (h | h)
      · cases h
      · exact h
    | cons x l ih =>
      intro s h
      apply ih
      rw [List.mem_filter, bne_iff_ne]
      rcases h with h | h
      · rcases List.mem_cons.mp h with rfl | h
        · exact .inr (fun hx => hx.2 rfl)
        · exact .inl h
      · exact .inr (fun hx => h hx.1)
  exact key _ _ (.inl (List.mem_filter.mpr ⟨hit, how⟩))

end

/-! ## the order of the services -/

structure Inv (svrreg : List ServiceRegister) (servicename : String) (c : CoreServiceBase) :
    Prop where
  name : c.m_servicename = servicename
  ptrs : c.m_releasevec = c.objects.map Service.ptr
  numbers : c.objects.map Service.ptr = (List.range c.objects.length).map ServicePtr.own
  entry : ∀ n p, c.m_services n = some p → p ∈ c.m_releasevec
  own : ∀ it ∈ svrreg, isOwn servicename it = true → c.m_dependservices it.ServiceName = none
  /-- a dependency is there, or no service of the core -/
  met : ∀ o ∈ c.objects, ∀ d ∈ o.register.DependServicesName, (c.m_services d).isSome ∨
    ∀ it ∈ svrreg, isOwn servicename it = true → it.ServiceName ≠ d
  /-- a dependency lies before -/
  order : ∀ o ∈ c.objects, ∀ d ∈ o.register.DependServicesName, ∀ q, c.m_services d = some q →
    [q, o.ptr].Sublist c.m_releasevec

section
variable {svrreg l : List ServiceRegister} {servicename : String} {c c' : CoreServiceBase}
  {it : ServiceRegister} {t : TServicesMap}

theorem Inv.init : Inv svrreg servicename { m_servicename := servicename } where
  name := rfl
  ptrs := rfl
  numbers := rfl
  entry := fun _ _ h => nomatch h
  own := fun _ _ _ => rfl
  met := fun _ h => nomatch h
  order := fun _ h => nomatch h

theorem Inv.made (hi : Inv svrreg servicename c) (hit : it ∈ svrreg)
    (how : isOwn servicename it = true) (hn : c.m_services it.ServiceName = none)
    (hm : Made c it t c') : Inv svrreg servicename c' := by
  -- what the new service depends on is another service of the core, or none of them
  have hdeps : ∀ d ∈ it.DependServicesName, (c.m_services d).isSome ∨
      ∀ it' ∈ svrreg, isOwn servicename it' = true → it'.ServiceName ≠ d := by
    intro d hd
    rcases servicesTemp_isSome.mp (Option.isSome_of_eq_some hm.temp) d hd with h | h
    · exact .inl h
    · refine .inr fun it' hit' how' he => ?_
      rw [← he, hi.own it' hit' how'] at h
      cases h
  have hmono : ∀ d, (c.m_services d).isSome → (c'.m_services d).isSome := by
    intro d hd
    rw [hm.services]
    by_cases he : d = it.ServiceName
    · rw [he, Function.update_self]
      rfl
    · rw [Function.update_of_ne he]
      exact hd
  -- a dependency that is entered was there before
  have hold : ∀ d q, c'.m_services d = some q → ((c.m_services d).isSome ∨
      ∀ it' ∈ svrreg, isOwn servicename it' = true → it'.ServiceName ≠ d) →
      c.m_services d = some q := by
    intro d q hq hd
    by_cases he : d = it.ServiceName
    · rcases hd with h | h
      · rw [he, hn] at h
        cases h
      · exact absurd he.symm (h it hit how)
    · rw [hm.services, Function.update_of_ne he] at hq
      exact hq
  constructor
  · rw [hm.name, hi.name]
  · rw [hm.releasevec, hm.objects, hi.ptrs, List.map_append]
    rfl
  · rw [hm.objects, List.map_append, hi.numbers, List.length_append, List.length_singleton,
      List.range_succ, List.map_append]
    rfl
  · intro n p hp
    rw [hm.releasevec]
    by_cases he : n = it.ServiceName
    · rw [hm.services, he, Function.update_self] at hp
      cases hp
      exact List.mem_append_right _ List.mem_cons_self
    · rw [hm.services, Function.update_of_ne he] at hp
      exact List.mem_append_left _ (hi.entry n p hp)
  · intro it' hit' how'
    rw [hm.parents]
    exact hi.own it' hit' how'
  · intro o ho d hd
    rw [hm.objects] at ho
    rcases List.mem_append.mp ho with ho | ho
    · rcases hi.met o ho d hd with h | h
      · exact .inl (hmono d h)
      · exact .inr h
    · rw [List.mem_singleton.mp ho] at hd
      rcases hdeps d hd with h | h
      · exact .inl (hmono d h)
      · exact .inr h
  · intro o ho d hd q hq
    rw [hm.releasevec]
    rw [hm.objects] at ho
    rcases List.mem_append.mp ho with ho | ho
    · have hq := hold d q hq (hi.met o ho d hd)
      exact (hi.order o ho d hd q hq).trans (List.sublist_append_left _ _)
    · have ho := List.mem_singleton.mp ho
      rw [ho] at hd ⊢
      have hq := hold d q hq (hdeps d hd)
      exact (List.singleton_sublist.mpr (hi.entry d q hq)).append (.refl [_])

theorem Inv.builds (hi : Inv svrreg servicename c) (hb : Builds l c c')
    (hl : ∀ it ∈ l, it ∈ svrreg ∧ isOwn servicename it = true) : Inv svrreg servicename c' := by
  induction hb with
  | refl => exact hi
  | step _ hit hn hm ih => exact ih.made (hl _ hit).1 (hl _ hit).2 hn hm

/-- **the invariant holds in every state of a core** -/
theorem Reachable.inv (h : Reachable svrreg servicename c) : Inv svrreg servicename c := by
  induction h with
  | startup h =>
    obtain ⟨l, hb, hl⟩ := Creater.builds h (fun it hit => by
      rw [List.mem_filter, Bool.and_eq_true] at hit
      exact ⟨hit.1, hit.2.1⟩)
    exact Inv.init.builds hb hl
  | @depend c m _ hm ih =>
    refine ⟨ih.name, ih.ptrs, ih.numbers, ih.entry, ?_, ih.met, ih.order⟩
    intro it hit how
    cases hs : m it.ServiceName with
    | none => exact hs
    | some p => exact absurd (hm _ p hs) (own_not_mem hit how)
  | @get c c' n _ h ih =>
    unfold FirstGetCreater at h
    split at h
    · rw [h]
      exact ih
    · obtain ⟨l, hb, hl⟩ := Creater.builds h (fun it hit => by
        have hf := Option.mem_toList.mp hit
        have hp := List.find?_some hf
        rw [Bool.and_eq_true, Bool.and_eq_true] at hp
        exact ⟨List.mem_of_find?_eq_some hf, hp.1.1⟩)
      rw [ih.name] at hl
      exact ih.builds hb hl

theorem Inv.nodup (hi : Inv svrreg servicename c) : c.m_releasevec.Nodup := by
  rw [hi.ptrs, hi.numbers]
  refine List.Nodup.map ?_ List.nodup_range
  intro m n h
  cases h
  rfl

end

/-- **The services of a core**, for every registry: `__Creater` returns and has entered exactly the
services that are requested or depended on and can be constructed, each made once, what was there
stays; in every state of a core a service lies behind those it depends on in `m_releasevec`, and the
destructor deletes it, once, before them. -/
theorem creater (svrreg : List ServiceRegister) :
    (∀ (c : CoreServiceBase) (vec : List ServiceRegister), ∃ c' new,
      Creater svrreg c vec c' ∧ (∀ c'', Creater svrreg c vec c'' → c'' = c') ∧
      (∀ n, (c'.m_services n).isSome ↔
        (c.m_services n).isSome ∨ Constructible (Wanted svrreg c.m_servicename vec) c n) ∧
      (∀ n p, c.m_services n = some p → c'.m_services n = some p) ∧
      c'.objects = c.objects ++ new ∧ c'.m_releasevec = c.m_releasevec ++ new.map Service.ptr ∧
      (new.map (fun o => o.register.ServiceName)).Nodup ∧
      ∀ n, (∃ o ∈ new, o.register.ServiceName = n) ↔
        c.m_services n = none ∧ (c'.m_services n).isSome) ∧
    ∀ servicename c, Reachable svrreg servicename c →
      c.released.Nodup ∧
      ∀ o ∈ c.objects, ∀ d ∈ o.register.DependServicesName, ∀ q, c.m_services d = some q →
        [q, o.ptr].Sublist c.m_releasevec ∧ [o.ptr, q].Sublist c.released := by
  constructor
  · intro c vec
    obtain ⟨c', l, hcr, huniq, hl, hb, hstuck⟩ := creater_returns svrreg c vec
    obtain ⟨new, ho, hr, hd, hiff⟩ := hb.once
    refine ⟨c', new, hcr, huniq, fun n => ⟨?_, ?_⟩, fun n p hp => hb.keep hp, ho, hr, hd, hiff⟩
    · exact hb.sound (fun it hit => (hl it).mp hit)
    · rintro (h | h)
      · exact hb.isSome h
      · exact h.complete hb (fun it hw => hstuck it ((hl it).mpr hw))
  · intro servicename c h
    refine ⟨List.nodup_reverse.mpr h.inv.nodup, ?_⟩
    intro o ho d hd q hq
    have hlt := h.inv.order o ho d hd q hq
    exact ⟨hlt, hlt.reverse⟩

/-- a startup service and the one it depends on, registered behind it -/
def pair : List ServiceRegister :=
  [{ ServiceName := "A", DependServicesName := ["B"], coreservice := "core",
     servicecreate := .EStartup },
   { ServiceName := "B", DependServicesName := [], coreservice := "core" }]

theorem creater_pair : ∃ c : CoreServiceBase, c.m_releasevec = [.own 0, .own 1] ∧
    [.own 1, .own 0].Sublist c.released := by
  obtain ⟨c, hc, ho, hr, hb⟩ : ∃ c : CoreServiceBase, Reachable pair "core" c ∧
      c.objects.map (fun o => (o.ptr, o.register.DependServicesName)) =
        [(.own 0, []), (.own 1, ["B"])] ∧
      c.m_releasevec = [.own 0, .own 1] ∧ c.m_services "B" = some (.own 0) :=
    ⟨_, .startup ⟨["B"], [], .of_iter (n := 1) rfl, .of_iter (n := 2) rfl⟩, rfl, rfl, rfl⟩
  have hmem : (ServicePtr.own 1, ["B"]) ∈
      c.objects.map (fun o => (o.ptr, o.register.DependServicesName)) := by
    rw [ho]
    exact List.mem_cons_of_mem _ List.mem_cons_self
  obtain ⟨o, hmem, he⟩ := List.mem_map.mp hmem
  obtain ⟨hp, hd⟩ := Prod.mk.inj he
  refine ⟨c, hr, hp ▸ (((creater pair).2 "core" c hc).2 o hmem "B" ?_ (.own 0) hb).2⟩
  rw [hd]
  exact List.mem_cons_self

end CorePattern
