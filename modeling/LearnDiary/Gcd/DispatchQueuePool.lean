import LearnDiary.Base.Bytes
import LearnDiary.Lib.Runs
import Mathlib.Data.List.Rotate

/-!
# `FLDispatchQueuePool` (GCD/FLDispatchQueuePool.m)

`calloc` succeeds, the name of a pool is only stored.  A call of `queue` is two steps of its thread:
the atomic addition, and the access to `queues`, which has no outcome behind the array.

* `index_value`       the index of the counter's values up to the last good one;
* `window_perm`       consecutive values select the queues in turn;
* `covered_of_fair`   behind the last good value the index is negative;
* `fair_iff`          runs.
-/

inductive NSQualityOfService where
  | userInteractive
  | userInitiated
  | utility
  | background
  | default
  | other (n : Int)

/-- a serial queue, by the order of creation, with the priority of its target -/
structure DispatchQueue where
  number : Nat
  identifier : Int

structure FLDispatchContext where
  counter : Int
  queueCount : Int
  queues : List DispatchQueue

namespace FLDispatchQueuePool

/-- `DISPATCH_QUEUE_PRIORITY_HIGH` is 2, `LOW` is -2, `DEFAULT` is 0 -/
def getDispatchIdentifier : NSQualityOfService → Int
  | .userInteractive => 2
  | .userInitiated => 2
  | .utility => -2
  | .background => -2
  | .default => 0
  | .other _ => 0

def createDispatchContext (queueCount : Nat) (qos : NSQualityOfService) : FLDispatchContext where
  counter := 0
  queueCount := toInt32 queueCount
  queues := (List.range queueCount).map fun i => ⟨i, getDispatchIdentifier qos⟩

def initWithName (queueCount : Nat) (qos : NSQualityOfService) : Option FLDispatchContext :=
  if queueCount > 32 then none else some (createDispatchContext queueCount qos)

/-- `OSAtomicAdd32(1, &context->counter)`; it returns the new value -/
def atomicAdd (context : FLDispatchContext) : FLDispatchContext :=
  { context with counter := toInt32 (context.counter + 1) }

/-- `value % context->queueCount` -/
def index (context : FLDispatchContext) (value : Int) : Option Int :=
  if context.queueCount = 0 then none else some (value.tmod context.queueCount)

/-- `context->queues[value % context->queueCount]` -/
def select (context : FLDispatchContext) (value : Int) : Option DispatchQueue :=
  (index context value).bind fun i => if 0 ≤ i then context.queues[i.toNat]? else none

/-! ## threads -/

/-- the threads between the two steps with their `value`, the values and queues handed out -/
structure Pool where
  context : FLDispatchContext
  value : Nat → Option Int := fun _ => none
  values : List Int := []
  given : List DispatchQueue := []

inductive Action where
  | atomicAdd (thread : Nat)
  | select (thread : Nat)

def step (s : Pool) : Action → Option Pool
  | .atomicAdd thread =>
    if s.value thread = none then
      let context := atomicAdd s.context
      some { s with
        context := context
        value := Function.update s.value thread (some context.counter)
        values := s.values ++ [context.counter] }
    else none
  | .select thread =>
    (s.value thread).bind fun value =>
      (select s.context value).map fun queue => { s with
        value := Function.update s.value thread none
        given := s.given ++ [queue] }

/-- every value selects inside the array, and as many values in a row as there are queues select
each queue once -/
structure Fair (s : Pool) : Prop where
  inside : ∀ v ∈ s.values, ∃ i, index s.context v = some i ∧ 0 ≤ i ∧ i < s.context.queueCount
  once : ∀ w, w <:+: s.values → (w.length : Int) = s.context.queueCount →
    (w.map (select s.context)).Perm (s.context.queues.map some)

/-- `calls` calls stay in front of the first value with a negative index -/
def Covered (queueCount calls : Nat) : Prop :=
  calls = 0 ∨ 0 < queueCount ∧
    (queueCount = 1 ∨ calls < 2 ^ 31 ∨ calls = 2 ^ 31 ∧ 2 ^ 31 % queueCount = 0)

/-! ## values -/

structure Inv (queueCount : Nat) (qos : NSQualityOfService) (s : Pool) : Prop where
  counter : s.context.counter = toInt32 s.values.length
  count : s.context.queueCount = toInt32 queueCount
  queues : s.context.queues = (createDispatchContext queueCount qos).queues
  values : s.values = (List.range s.values.length).map fun k => toInt32 (k + 1 : Nat)

section
variable {queueCount : Nat} {qos : NSQualityOfService} {s s' : Pool}

theorem Inv.start : Inv queueCount qos { context := createDispatchContext queueCount qos } where
  counter := (toInt32_of_lt (by decide : 0 < 2 ^ 31)).symm
  count := rfl
  queues := rfl
  values := rfl

theorem toInt32_succ (n : Nat) : toInt32 (toInt32 n + 1) = toInt32 (n + 1 : Nat) := by
  have h := toInt32_dvd n
  exact toInt32_congr (by omega)

theorem Inv.step {a : Action} (h : Inv queueCount qos s)
    (hs : FLDispatchQueuePool.step s a = some s') : Inv queueCount qos s' := by
  cases a with
  | atomicAdd thread =>
    simp only [FLDispatchQueuePool.step] at hs
    split at hs
    · cases hs
      have hcounter : (atomicAdd s.context).counter = toInt32 (s.values.length + 1 : Nat) := by
        unfold atomicAdd
        rw [h.counter]
        exact toInt32_succ _
      have hlen : (s.values ++ [(atomicAdd s.context).counter]).length = s.values.length + 1 := by
        rw [List.length_append, List.length_singleton]
      refine ⟨hcounter.trans (congrArg (fun n : Nat => toInt32 n) hlen.symm), h.count, h.queues, ?_⟩
      show s.values ++ [(atomicAdd s.context).counter] = _
      rw [hlen, List.range_succ, List.map_append, ← h.values, hcounter]
      rfl
    · cases hs
  | select thread =>
    obtain ⟨v, -, hs⟩ := Option.bind_eq_some_iff.mp hs
    obtain ⟨queue, -, rfl⟩ := Option.map_eq_some_iff.mp hs
    exact ⟨h.counter, h.count, h.queues, h.values⟩

theorem inv_of_run (h : Runs.AnyRun step { context := createDispatchContext queueCount qos } s) :
    Inv queueCount qos s :=
  h.keep (fun _ _ _ hP _ hs => hP.step hs) Inv.start

theorem Inv.queueCount_eq (h : Inv queueCount qos s) (hn : queueCount ≤ 32) :
    s.context.queueCount = queueCount := by
  rw [h.count]
  exact toInt32_of_lt (by omega)

theorem Inv.index (h : Inv queueCount qos s) (hn : queueCount ≤ 32) (h0 : 0 < queueCount)
    (v : Int) : FLDispatchQueuePool.index s.context v = some (v.tmod queueCount) := by
  unfold FLDispatchQueuePool.index
  rw [h.queueCount_eq hn, if_neg (by omega)]

theorem Inv.mem_values (h : Inv queueCount qos s) {v : Int} :
    v ∈ s.values ↔ ∃ k, k < s.values.length ∧ toInt32 (k + 1 : Nat) = v := by
  constructor
  · intro hv
    rw [h.values] at hv
    obtain ⟨k, hk, hv⟩ := List.mem_map.mp hv
    exact ⟨k, List.mem_range.mp hk, hv⟩
  · rintro ⟨k, hk, rfl⟩
    rw [h.values]
    exact List.mem_map.mpr ⟨k, List.mem_range.mpr hk, rfl⟩

theorem toInt32_last : toInt32 (2 ^ 31 : Nat) = -2 ^ 31 := by
  have h := toInt32_neg (n := 2 ^ 31) (by decide) (by decide)
  have hdvd := toInt32_dvd (2 ^ 31 : Nat)
  have hle := le_toInt32 (2 ^ 31 : Nat)
  omega

/-- **The index of the first values** is that of the call. -/
theorem index_value {k calls : Nat} (hcov : Covered queueCount calls) (h0 : 0 < k)
    (hk : k ≤ calls) : (toInt32 k).tmod queueCount = (k % queueCount : Nat) := by
  have hsmall : k < 2 ^ 31 → (toInt32 k).tmod queueCount = (k % queueCount : Nat) := by
    intro hlt
    rw [toInt32_of_lt hlt, Int.ofNat_tmod]
  rcases hcov with rfl | ⟨-, rfl | hlt | ⟨rfl, hmod⟩⟩
  · omega
  · rw [Nat.mod_one]
    exact Int.tmod_one _
  · exact hsmall (Nat.lt_of_le_of_lt hk hlt)
  · rcases Nat.lt_or_eq_of_le hk with hlt | rfl
    · exact hsmall hlt
    · rw [toInt32_last, hmod, Int.neg_tmod]
      have h : (2 ^ 31 : Int).tmod queueCount = (2 ^ 31 % queueCount : Nat) :=
        (Int.ofNat_tmod _ _).symm
      rw [h, hmod]
      rfl

theorem Inv.select (h : Inv queueCount qos s) (hn : queueCount ≤ 32) (h0 : 0 < queueCount)
    {k : Nat} (hcov : Covered queueCount s.values.length) (hk : k < s.values.length) :
    FLDispatchQueuePool.select s.context (toInt32 (k + 1 : Nat)) =
      some ⟨(k + 1) % queueCount, getDispatchIdentifier qos⟩ := by
  have hlt : (k + 1) % queueCount < queueCount := Nat.mod_lt _ h0
  unfold FLDispatchQueuePool.select
  rw [h.index hn h0, index_value hcov (Nat.succ_pos k) hk, Option.bind_some,
    if_pos (Int.natCast_nonneg _), Int.toNat_natCast, h.queues]
  show ((List.range queueCount).map _)[_]? = _
  rw [List.getElem?_map, List.getElem?_range hlt]
  rfl

/-- the numbers below `n`, begun behind the first `a` -/
theorem map_range_rotate (n a : Nat) :
    (List.range n).map (fun j => (j + a) % n) = (List.range n).rotate a := by
  refine List.ext_getElem ?_ (fun j h1 h2 => ?_)
  · rw [List.length_map, List.length_rotate]
  · rw [List.getElem_map, List.getElem_range, List.getElem_rotate, List.getElem_range,
      List.length_range]

/-- **Values in a row** select the queues in turn. -/
theorem window_perm (h : Inv queueCount qos s) (hn : queueCount ≤ 32) (h0 : 0 < queueCount)
    (hcov : Covered queueCount s.values.length) {w : List Int} (hw : w <:+: s.values)
    (hlen : w.length = queueCount) :
    (w.map (select s.context)).Perm (s.context.queues.map some) := by
  obtain ⟨p, t, hpt⟩ := hw
  have hbound : p.length + queueCount ≤ s.values.length := by
    rw [← hpt, List.length_append, List.length_append]
    omega
  have hget : w.map (select s.context) = ((List.range queueCount).map
      fun j => (j + (p.length + 1)) % queueCount).map
        fun i => some ⟨i, getDispatchIdentifier qos⟩ := by
    refine List.ext_getElem? (fun j => ?_)
    rw [List.getElem?_map, List.getElem?_map, List.getElem?_map]
    by_cases hj : j < queueCount
    · have hwj : w[j]? = some (toInt32 (p.length + j + 1 : Nat)) := by
        have hv : s.values[p.length + j]? = w[j]? := by
          rw [← hpt, List.append_assoc, List.getElem?_append_right (Nat.le_add_right _ _),
            Nat.add_sub_cancel_left, List.getElem?_append_left (by omega)]
        rw [← hv, h.values, List.getElem?_map, List.getElem?_range (by omega)]
        rfl
      rw [hwj, List.getElem?_range hj, Option.map_some, Option.map_some, Option.map_some,
        h.select hn h0 hcov (by omega)]
      rw [show p.length + j + 1 = j + (p.length + 1) by omega]
    · rw [List.getElem?_eq_none (by omega), List.getElem?_eq_none (by
        rw [List.length_range]
        omega)]
      rfl
  rw [hget, map_range_rotate, h.queues]
  show List.Perm _ (((List.range queueCount).map _).map some)
  rw [List.map_map]
  exact (List.rotate_perm _ _).map _

theorem fair_of_covered (h : Inv queueCount qos s) (hn : queueCount ≤ 32)
    (hcov : Covered queueCount s.values.length) : Fair s := by
  constructor
  · intro v hv
    obtain ⟨k, hk, rfl⟩ := h.mem_values.mp hv
    have h0 : 0 < queueCount := by
      rcases hcov with hzero | ⟨h0, -⟩
      · omega
      · exact h0
    have hlt : (k + 1) % queueCount < queueCount := Nat.mod_lt _ h0
    have hi := index_value (k := k + 1) hcov (Nat.succ_pos k) hk
    refine ⟨_, h.index hn h0 _, ?_, ?_⟩
    · rw [hi]
      exact Int.natCast_nonneg _
    · rw [hi, h.queueCount_eq hn]
      exact Int.ofNat_lt.mpr hlt
  · intro w hw hlen
    rw [h.queueCount_eq hn] at hlen
    rcases Nat.eq_zero_or_pos queueCount with rfl | h0
    · have hnil : w = [] := List.eq_nil_of_length_eq_zero (by omega)
      rw [hnil, h.queues]
      exact List.Perm.refl _
    · exact window_perm h hn h0 hcov hw (by omega)

/-- **Behind the last good value** an index is negative, as soon as there are two queues. -/
theorem covered_of_fair (h : Inv queueCount qos s) (hn : queueCount ≤ 32) (hfair : Fair s) :
    Covered queueCount s.values.length := by
  rcases Nat.eq_zero_or_pos s.values.length with hzero | hcalls
  · exact Or.inl hzero
  have hindex : ∀ k < s.values.length, 0 < queueCount ∧
      0 ≤ (toInt32 (k + 1 : Nat)).tmod queueCount := by
    intro k hk
    obtain ⟨i, hi, hge, -⟩ := hfair.inside _ (h.mem_values.mpr ⟨k, hk, rfl⟩)
    rcases Nat.eq_zero_or_pos queueCount with rfl | h0
    · unfold index at hi
      rw [h.queueCount_eq hn] at hi
      cases hi
    · rw [h.index hn h0] at hi
      cases hi
      exact ⟨h0, hge⟩
  have hneg : ∀ m : Nat, 0 ≤ (-(m : Int)).tmod queueCount → m % queueCount = 0 := by
    intro m hm
    rw [Int.neg_tmod, ← Int.ofNat_tmod] at hm
    omega
  obtain ⟨h0, -⟩ := hindex 0 hcalls
  refine Or.inr ⟨h0, ?_⟩
  by_cases hlt : s.values.length < 2 ^ 31
  · exact Or.inr (Or.inl hlt)
  have hlast : 2 ^ 31 % queueCount = 0 := by
    have h : 0 ≤ (toInt32 (2 ^ 31 : Nat)).tmod queueCount := (hindex (2 ^ 31 - 1) (by omega)).2
    rw [toInt32_last] at h
    exact hneg (2 ^ 31) h
  by_cases heq : s.values.length = 2 ^ 31
  · exact Or.inr (Or.inr ⟨heq, hlast⟩)
  have hnext : (2 ^ 31 - 1) % queueCount = 0 := by
    have h := (hindex (2 ^ 31) (by omega)).2
    rw [show toInt32 (2 ^ 31 + 1 : Nat) = -(2 ^ 31 - 1 : Nat) by
      rw [← toInt32_succ, toInt32_last]
      exact toInt32_eq (by decide) (by decide)] at h
    exact hneg (2 ^ 31 - 1) h
  have hone : queueCount ∣ 2 ^ 31 - (2 ^ 31 - 1) :=
    Nat.dvd_sub (Nat.dvd_of_mod_eq_zero hlast) (Nat.dvd_of_mod_eq_zero hnext)
  exact Or.inl (Nat.dvd_one.mp hone)

theorem exists_calls (context : FLDispatchContext) (calls : Nat) :
    ∃ s, Runs.AnyRun step { context := context } s ∧ s.values.length = calls ∧
      ∀ thread ≥ calls, s.value thread = none := by
  induction calls with
  | zero => exact ⟨_, Relation.ReflTransGen.refl, rfl, fun _ _ => rfl⟩
  | succ calls ih =>
    obtain ⟨s, hrun, hlen, hnone⟩ := ih
    refine ⟨_, hrun.tail ⟨.atomicAdd calls, trivial, if_pos (hnone calls (Nat.le_refl _))⟩, ?_, ?_⟩
    · show (s.values ++ [_]).length = _
      rw [List.length_append, hlen]
      rfl
    · intro thread hge
      show Function.update s.value calls _ thread = none
      rw [Function.update_of_ne (by omega)]
      exact hnone thread (by omega)

end

/-- **Selection.**  The calls select inside the array and the queues in turn exactly as long as the
counter stays below its wrap around, or there is one queue; where there is none, no call may be
made. -/
theorem fair_iff (queueCount : Nat) (qos : NSQualityOfService) (context : FLDispatchContext)
    (s : Pool) (hinit : initWithName queueCount qos = some context)
    (h : Runs.AnyRun step { context := context } s) :
    Fair s ↔ Covered queueCount s.values.length := by
  unfold initWithName at hinit
  split at hinit
  · cases hinit
  · rename_i hle
    cases hinit
    have hinv := inv_of_run h
    exact ⟨covered_of_fair hinv (by omega), fair_of_covered hinv (by omega)⟩

/-- two threads, that add in turn and select the other way round -/
def crossed : List Action :=
  (List.replicate 3 [.atomicAdd 1, .atomicAdd 2, .select 2, .select 1]).flatten

/-- six calls with five queues -/
theorem fair_iff_five : ∃ s, s.values = [1, 2, 3, 4, 5, 6] ∧
    s.given.map DispatchQueue.number = [2, 1, 4, 3, 1, 0] ∧ Fair s := by
  let start : Pool := { context := createDispatchContext 5 .userInteractive }
  obtain ⟨s, hs⟩ := Option.isSome_iff_exists.mp
    (show (Runs.exec step start crossed).isSome = true by decide +kernel)
  have hvalues : (Runs.exec step start crossed).map Pool.values = some [1, 2, 3, 4, 5, 6] := by
    decide +kernel
  have hgiven : (Runs.exec step start crossed).map (fun s => s.given.map DispatchQueue.number) =
      some [2, 1, 4, 3, 1, 0] := by
    decide +kernel
  rw [hs] at hvalues hgiven
  have hvalues := Option.some.inj hvalues
  refine ⟨s, hvalues, Option.some.inj hgiven,
    (fair_iff 5 .userInteractive _ s rfl (Runs.Run.of_exec hs)).mpr ?_⟩
  rw [hvalues]
  unfold Covered
  decide

theorem exists_not_fair {n : Nat} (hsmall : queueCount ≤ 32) (h : ¬ Covered queueCount n) :
    ∃ context s, initWithName queueCount .default = some context ∧
      Runs.AnyRun step { context := context } s ∧ s.values.length = n ∧ ¬ Fair s := by
  obtain ⟨s, hrun, hlen, -⟩ := exists_calls (createDispatchContext queueCount .default) n
  refine ⟨_, s, if_neg (by omega), hrun, hlen, fun hfair => h ?_⟩
  rw [← hlen]
  exact covered_of_fair (inv_of_run hrun) hsmall hfair

/-- the first call where there is no queue, and the one with the value `-2 ^ 31` where there are
three -/
theorem not_fair_three :
    (∃ context s, initWithName 0 .default = some context ∧
      Runs.AnyRun step { context := context } s ∧ s.values.length = 1 ∧ ¬ Fair s) ∧
    ∃ context s, initWithName 3 .default = some context ∧
      Runs.AnyRun step { context := context } s ∧ s.values.length = 2 ^ 31 ∧ ¬ Fair s := by
  refine ⟨exists_not_fair (by decide) ?_, exists_not_fair (by decide) ?_⟩
  · unfold Covered
    decide
  · unfold Covered
    decide

end FLDispatchQueuePool
