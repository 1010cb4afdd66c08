import LearnDiary.MessageQueue.Ids

/-!
# Message queues: one message of a kind

`SingletonMessage` and `FasterMessage` keep at most one message of a handler and a title pending, as
long as nobody posts one of these in another way, and a replacement takes over the id.  The id with
the number 0 is the exception: `0 != post_id.seq` takes it for no id.

* `Slot`                   what the two calls do to the messages of a handler and a title;
* `singleton_discipline`   runs in which no such message gets the number 0.
-/

namespace MessageQueue
open State

variable {s s' : State} {h h' : MessageHandler_t} {m m' : Message}

/-- the ids of the pending messages of the handler with the title of `m` -/
def State.kind (h : MessageHandler_t) (m : Message) (s : State) : List MessagePost_t :=
  ((s.pending h.queue).filter (matching h m)).map (·.postid)

/-- the call posts such a message, and not as `SingletonMessage` or `FasterMessage` -/
def Call.plain (h : MessageHandler_t) (m : Message) : Call → Prop
  | .postMessage h' m' _ => h' = h ∧ m'.title = m.title
  | .broadcastMessage q m' _ => h = ⟨q, 0⟩ ∧ m'.title = m.title
  | _ => False

/-- the call is a `SingletonMessage` or `FasterMessage` of such a message -/
def Call.single (h : MessageHandler_t) (m : Message) : Call → Prop
  | .singletonMessage _ h' m' _ => h' = h ∧ m'.title = m.title
  | .fasterMessage h' m' _ => h' = h ∧ m'.title = m.title
  | _ => False

/-! ## steps that post nothing -/

variable {D : State → MessageWrapper → Why → Prop} {E : Guard → Prop}

/-- the ids and titles of a list -/
def keys (l : List MessageWrapper) : List (MessagePost_t × UInt64) :=
  l.map (fun w => (w.postid, w.message.title))

theorem kind_eq (h : MessageHandler_t) (m : Message) (s : State) :
    s.kind h m = ((keys (s.pending h.queue)).filter
      (fun k => k.1.reg == h && k.2 == m.title)).map (·.1) := by
  unfold State.kind keys
  rw [List.filter_map, List.map_map]
  rfl

theorem Entry.keys_sublist (he : Entry D (· ≠ .post) s s') (hD : ∀ u w, ¬ D u w .replace)
    (q : MessageQueue_t) : (keys (s'.pending q)).Sublist (keys (s.pending q)) := by
  have hrest : ∀ {p l₁ w l₂}, s.pending p = l₁ ++ w :: l₂ →
      s'.pending = Function.update s.pending p (l₁ ++ l₂) →
      (keys (s'.pending q)).Sublist (keys (s.pending q)) := by
    intro p l₁ w l₂ hl₀ hp
    rw [hp]
    by_cases e : q = p
    · subst e
      rw [Function.update_self, hl₀]
      exact (List.Sublist.append_left (List.sublist_cons_self w l₂) l₁).map _
    · rw [Function.update_of_ne e]
  cases he with
  | quiet hp =>
    rw [hp]
  | enqueue p w he => exact absurd rfl he
  | replace p l₁ w l₂ w' hl₀ hself hid hm hq hd => exact absurd hd (hD s w)
  | delete p l₁ w l₂ why hl₀ hd hp => exact hrest hl₀ hp
  | take p l₁ w l₂ fit hl₀ hno hone hp => exact hrest hl₀ hp
  | fire p l₁ w l₂ w' fit hl₀ hno hone hw' hp =>
    rw [hp]
    by_cases e : q = p
    · subst e
      have hk : keys (l₁ ++ w' :: l₂) = keys (s.pending q) := by
        unfold keys
        rw [hl₀, List.map_append, List.map_append, List.map_cons, List.map_cons,
          fixed_postid hw'.1, fixed_message hw'.1]
      rw [Function.update_self, hk]
    · rw [Function.update_of_ne e]

/-- a step that is no call of a posting function only takes messages away -/
theorem step_kind {a : Act} (h0 : s.map 0 = none) (hs : step s a = some s') (ha : a.posts = false) :
    (s'.kind h m).Sublist (s.kind h m) := by
  have hmoves : Moves (fun _ _ why => why ≠ .replace) (· ≠ .post) s s' := by
    refine step_moves h0 hs (fun hp => ?_) (fun _ e => by cases e) (fun _ _ _ e => by cases e) ?_
    · rw [ha] at hp
      cases hp
    · intro w hw u _ _ hwhy
      cases a with
      | call t k =>
        cases k with
        | postMessage | singletonMessage | broadcastMessage | fasterMessage => cases ha
        | cancelMessage | cancelMessageOfHandler | cancelMessageOfTitle => cases hwhy
        | _ => cases hw
      | advance t => cases hwhy
      | _ => cases hw
  have hkeys : (keys (s'.pending h.queue)).Sublist (keys (s.pending h.queue)) := by
    refine hmoves.keep (P := fun u => (keys (u.pending h.queue)).Sublist (keys (s.pending h.queue)))
      ?_ (List.Sublist.refl _)
    intro u v hu hm
    exact (hm.entry.keys_sublist (fun _ _ hne => hne rfl) h.queue).trans hu
  rw [kind_eq, kind_eq]
  exact (hkeys.filter _).map _

/-! ## the two calls -/

/-- what `SingletonMessage` and `FasterMessage` do, `i` is what they return -/
inductive Slot (h : MessageHandler_t) (m : Message) (s s' : State) (i : MessagePost_t) : Prop
  | absent (hc : s.map h.queue = none) (hp : s'.pending = s.pending)
  | kept (it : MessageWrapper) (hit : it ∈ s.pending h.queue) (hm : matching h m it = true)
      (hp : s'.pending = s.pending) (hi : i = it.postid)
  | replaced (l₁ : List MessageWrapper) (it : MessageWrapper) (l₂ : List MessageWrapper)
      (w : MessageWrapper) (hl₀ : s.pending h.queue = l₁ ++ it :: l₂)
      (hm : matching h m it = true)
      (hp : s'.pending = Function.update s.pending h.queue (l₁ ++ l₂ ++ [w]))
      (hw : matching h m w = true) (hi : i = w.postid)
      (hid : it.postid.seq ≠ 0 → w.postid = it.postid)
  | fresh (w : MessageWrapper) (hc : s.map h.queue ≠ none)
      (hno : ∀ b ∈ s.pending h.queue, ¬ matching h m b = true)
      (hp : s'.pending = Function.update s.pending h.queue (s.pending h.queue ++ [w]))
      (hw : matching h m w = true) (hi : i = w.postid) (hid : w.postid.seq = s.s_seq + 1)

theorem pushBack_pending (q : MessageQueue_t) (c : MessageQueueContent) (w : MessageWrapper)
    (s : State) :
    (s.pushBack q c w).pending = Function.update s.pending q (c.lst_message ++ [w]) :=
  setQueue_pending { s with next := s.next + 1 } q _

theorem erase_pending (q : MessageQueue_t) (c : MessageQueueContent) (lst : List MessageWrapper)
    (it : MessageWrapper) (why : Why) (s : State) :
    (s.erase q c lst it why).pending = Function.update s.pending q lst :=
  setQueue_pending s q _

theorem newWrapper_matching (h : MessageHandler_t) (m : Message) (g : MessageTiming) (n : UInt32)
    (s : State) : matching h m (s.newWrapper h m g n) = true :=
  matching_iff.mpr ⟨rfl, rfl⟩

theorem makeSeq_pending (s : State) : s.makeSeq.2.pending = s.pending := rfl

theorem singletonMessage_slot (r : Bool) (h : MessageHandler_t) (m : Message) (g : MessageTiming)
    (s : State) : Slot h m s (s.singletonMessage r h m g).2 (s.singletonMessage r h m g).1 := by
  unfold singletonMessage
  cases hc : s.map h.queue with
  | none => exact .absent hc rfl
  | some c =>
    dsimp only
    cases hf : c.lst_message.find? (matching h m) with
    | none =>
      refine .fresh (s.makeSeq.2.newWrapper h m g s.makeSeq.1) (hc ▸ Option.some_ne_none c) ?_ ?_
        (newWrapper_matching h m g _ _) rfl rfl
      · rw [pending_some hc]
        exact List.find?_eq_none.mp hf
      · rw [pushBack_pending, pending_some hc]
        rfl
    | some it =>
      obtain ⟨hit, l₁, l₂, hl, her, -⟩ := find_erase hf
      have hl₀ : s.pending h.queue = l₁ ++ it :: l₂ := (pending_some hc).trans hl
      cases r with
      | false =>
        refine .kept it ?_ hit rfl rfl
        rw [pending_some hc]
        exact List.mem_of_find?_eq_some hf
      | true =>
        dsimp only
        rw [if_pos rfl, her]
        let u := s.erase h.queue c (l₁ ++ l₂) it .replace
        by_cases hz : it.postid.seq ≠ 0
        · rw [if_pos hz]
          refine .replaced l₁ it l₂ (u.newWrapper h m g it.postid.seq) hl₀ hit ?_
            (newWrapper_matching h m g _ _) rfl ?_
          · rw [pushBack_pending, erase_pending, Function.update_idem]
          · intro _
            show (⟨h, it.postid.seq⟩ : MessagePost_t) = it.postid
            rw [← (matching_iff.mp hit).1]
        · rw [if_neg hz]
          refine .replaced l₁ it l₂ (u.makeSeq.2.newWrapper h m g u.makeSeq.1) hl₀ hit ?_
            (newWrapper_matching h m g _ _) rfl (fun hne => absurd hne hz)
          rw [pushBack_pending, makeSeq_pending, erase_pending, Function.update_idem]

theorem fasterMessage_slot {g : MessageTiming} {r : MessagePost_t × State}
    (hr : s.fasterMessage h m g = some r) : Slot h m s r.2 r.1 := by
  cases hc : s.map h.queue with
  | none =>
    rw [fasterMessage_absent m g hc] at hr
    cases hr
    exact .absent hc rfl
  | some c =>
    cases hf : c.lst_message.find? (matching h m) with
    | none =>
      rw [fasterMessage_fresh g hc hf] at hr
      cases hr
      refine .fresh (s.makeSeq.2.newWrapper h m g s.makeSeq.1) (hc ▸ Option.some_ne_none c) ?_ ?_
        (newWrapper_matching h m g _ _) rfl rfl
      · rw [pending_some hc]
        exact List.find?_eq_none.mp hf
      · rw [pushBack_pending, makeSeq_pending, pending_some hc]
    | some it =>
      obtain ⟨hit, l₁, l₂, hl, her, -⟩ := find_erase hf
      have hl₀ : s.pending h.queue = l₁ ++ it :: l₂ := (pending_some hc).trans hl
      rw [fasterMessage_found g hc hf] at hr
      obtain ⟨kept, -, rfl⟩ := Option.map_eq_some_iff.mp hr
      cases kept with
      | true =>
        refine .kept it ?_ hit rfl rfl
        rw [pending_some hc]
        exact List.mem_of_find?_eq_some hf
      | false =>
        rw [her]
        refine .replaced l₁ it l₂ { s.makeSeq.2.newWrapper h m g s.makeSeq.1 with
          postid := it.postid } hl₀ hit ?_ ?_ rfl (fun _ => rfl)
        · rw [if_neg Bool.false_ne_true, pushBack_pending, erase_pending, makeSeq_pending,
            Function.update_idem]
        · exact matching_iff.mpr ⟨(matching_iff.mp hit).1, rfl⟩

/-! ## the messages of a kind -/

theorem matching_title (ht : m'.title = m.title) : matching h m' = matching h m := by
  funext it
  unfold matching Message.same
  rw [ht]

theorem kind_title (h : MessageHandler_t) (ht : m'.title = m.title) (u : State) :
    u.kind h m' = u.kind h m := by
  unfold State.kind
  rw [matching_title ht]

theorem matching_other {it : MessageWrapper} (hne : ¬ (h' = h ∧ m'.title = m.title))
    (hm : matching h' m' it = true) : matching h m it = false := by
  by_contra htrue
  obtain ⟨h1, h2⟩ := matching_iff.mp hm
  obtain ⟨h3, h4⟩ := matching_iff.mp (Bool.not_eq_false _ ▸ htrue)
  exact hne ⟨h1.symm.trans h3, h2.symm.trans h4⟩

theorem Slot.other {i : MessagePost_t} (hs : Slot h' m' s s' i)
    (hne : ¬ (h' = h ∧ m'.title = m.title)) : s'.kind h m = s.kind h m := by
  unfold State.kind
  cases hs with
  | absent hc hp => rw [hp]
  | kept it hit hm hp => rw [hp]
  | replaced l₁ it l₂ w hl₀ hm hp hw =>
    rw [hp]
    by_cases e : h.queue = h'.queue
    · rw [e, Function.update_self, hl₀, List.filter_append, List.filter_append, List.filter_append,
        List.filter_cons, List.filter_cons, matching_other hne hm, matching_other hne hw]
      simp
    · rw [Function.update_of_ne e]
  | fresh w hc' hno hp hw =>
    rw [hp]
    by_cases e : h.queue = h'.queue
    · rw [e, Function.update_self, List.filter_append, List.filter_cons, matching_other hne hw]
      simp
    · rw [Function.update_of_ne e]

/-- a message that is posted plainly is not of the kind -/
theorem kind_push {w : MessageWrapper} {q : MessageQueue_t}
    (hp : s'.pending = Function.update s.pending q (s.pending q ++ [w]))
    (hw : matching h m w = false) : s'.kind h m = s.kind h m := by
  unfold State.kind
  rw [hp]
  by_cases e : h.queue = q
  · rw [e, Function.update_self, List.filter_append, List.filter_cons, hw]
    simp
  · rw [Function.update_of_ne e]

/-- one message at most, with a number of its own -/
structure Single (h : MessageHandler_t) (m : Message) (s : State) : Prop where
  one : (s.kind h m).length ≤ 1
  number : ∀ i ∈ s.kind h m, i.seq ≠ 0

theorem Single.fewer (hs : Single h m s) (hk : (s'.kind h m).Sublist (s.kind h m)) :
    Single h m s' :=
  ⟨hk.length_le.trans hs.one, fun i hi => hs.number i (hk.subset hi)⟩

/-- **The two calls for the kind**: the message that is there keeps its id, which is returned. -/
theorem Slot.same {i : MessagePost_t} (hs : Slot h m s s' i) (hone : Single h m s)
    (hc : s.map h.queue ≠ none) :
    s'.kind h m = [i] ∧ (s.kind h m = [] ∧ i.seq = s.s_seq + 1 ∨ s.kind h m = [i]) := by
  cases hs with
  | absent hn => exact absurd hn hc
  | kept it hit hm hp hi =>
    have hmem : i ∈ s.kind h m := by
      rw [hi]
      exact List.mem_map_of_mem (List.mem_filter.mpr ⟨hit, hm⟩)
    have hk : s.kind h m = [i] := by
      have hlen := hone.one
      generalize s.kind h m = l at hmem hlen
      match l, hmem, hlen with
      | [j], hmem, _ => rw [List.mem_singleton.mp hmem]
      | _ :: _ :: _, _, hlen => simp at hlen
    refine ⟨?_, Or.inr hk⟩
    rw [← hk]
    unfold State.kind
    rw [hp]
  | replaced l₁ it l₂ w hl₀ hm hp hw hi hid =>
    have hsplit : s.kind h m = ((l₁.filter (matching h m)).map (·.postid)) ++
        it.postid :: ((l₂.filter (matching h m)).map (·.postid)) := by
      unfold State.kind
      rw [hl₀, List.filter_append, List.filter_cons, if_pos hm, List.map_append, List.map_cons]
    have hlen := hone.one
    rw [hsplit, List.length_append, List.length_cons] at hlen
    have h1 : (l₁.filter (matching h m)).map (·.postid) = [] :=
      List.length_eq_zero_iff.mp (by omega)
    have h2 : (l₂.filter (matching h m)).map (·.postid) = [] :=
      List.length_eq_zero_iff.mp (by omega)
    have hk : s.kind h m = [it.postid] := by rw [hsplit, h1, h2]; rfl
    have hz : it.postid.seq ≠ 0 := hone.number _ (by rw [hk]; exact List.mem_singleton_self _)
    have hi' : i = it.postid := hi.trans (hid hz)
    refine ⟨?_, Or.inr (by rw [hk, hi'])⟩
    unfold State.kind
    rw [hp, Function.update_self, List.filter_append, List.filter_append, List.filter_cons,
      if_pos hw, List.map_append, List.map_append, h1, h2, hi]
    rfl
  | fresh w hc' hno hp hw hi hid =>
    have hnil : (s.pending h.queue).filter (matching h m) = [] := by
      rw [List.filter_eq_nil_iff]
      exact hno
    refine ⟨?_, Or.inl ⟨?_, by rw [hi, hid]⟩⟩
    · unfold State.kind
      rw [hp, Function.update_self, List.filter_append, hnil, List.filter_cons, if_pos hw, hi]
      rfl
    · unfold State.kind
      rw [hnil]
      rfl

/-! ## runs -/

/-- a step that posts no message of the kind plainly, and none under the number 0 -/
def Tame (h : MessageHandler_t) (m : Message) (s : State) (a : Act) : Prop :=
  ∀ t k, a = .call t k → ¬ k.plain h m ∧ (k.single h m → s.s_seq + 1 ≠ 0)

theorem Slot.single {i : MessagePost_t} (hs : Slot h' m' s s' i) (hone : Single h m s)
    (hn : h' = h ∧ m'.title = m.title → s.s_seq + 1 ≠ 0) : Single h m s' := by
  by_cases he : h' = h ∧ m'.title = m.title
  · obtain ⟨rfl, ht⟩ := he
    have hkind := kind_title h' ht
    by_cases hc : s.map h'.queue = none
    · have hp : s'.pending = s.pending := by
        cases hs with
        | absent _ hp => exact hp
        | kept it hit hm hp => exact hp
        | replaced l₁ it l₂ w hl₀ =>
          have hmem := Entries.mem_mid hl₀
          unfold pending at hmem
          rw [hc] at hmem
          cases hmem
        | fresh w hc' => exact absurd hc hc'
      refine hone.fewer ?_
      unfold State.kind
      rw [hp]
    · have hone' : Single h' m' s := ⟨by rw [hkind]; exact hone.one, by rw [hkind]; exact hone.number⟩
      obtain ⟨h1, h2⟩ := hs.same hone' hc
      rw [hkind] at h1 h2
      refine ⟨by rw [h1]; exact le_rfl, ?_⟩
      intro j hj
      rw [h1] at hj
      rw [List.mem_singleton.mp hj]
      rcases h2 with ⟨-, h2⟩ | h2
      · rw [h2]
        exact hn ⟨rfl, ht⟩
      · exact hone.number i (by rw [h2]; exact List.mem_singleton_self i)
  · refine hone.fewer ?_
    rw [hs.other he]

/-- the messages of the kind stay, go, or one comes where there was none -/
def Stable (h : MessageHandler_t) (m : Message) (s s' : State) : Prop :=
  s.kind h m = [] ∨ s'.kind h m = [] ∨ s'.kind h m = s.kind h m

theorem Single.stable (hone : Single h m s) (hk : (s'.kind h m).Sublist (s.kind h m)) :
    Stable h m s s' := by
  have hlen := hone.one
  by_cases hnil : s'.kind h m = []
  · exact Or.inr (Or.inl hnil)
  · refine Or.inr (Or.inr (hk.eq_of_length_le ?_))
    have := List.length_pos_iff.mpr hnil
    omega

theorem Slot.stable {i : MessagePost_t} (hs : Slot h' m' s s' i) (hone : Single h m s) :
    Stable h m s s' := by
  by_cases he : h' = h ∧ m'.title = m.title
  · obtain ⟨rfl, ht⟩ := he
    have hkind := kind_title h' ht
    by_cases hc : s.map h'.queue = none
    · left
      unfold State.kind pending
      rw [hc]
      rfl
    · have hone' : Single h' m' s := ⟨by rw [hkind]; exact hone.one, by rw [hkind]; exact hone.number⟩
      obtain ⟨h1, h2⟩ := hs.same hone' hc
      rw [hkind] at h1 h2
      rcases h2 with ⟨h2, -⟩ | h2
      · exact Or.inl h2
      · exact Or.inr (Or.inr (by rw [h1, h2]))
  · exact Or.inr (Or.inr (hs.other he))

theorem postMessage_kind (g : MessageTiming) (hne : ¬ (h' = h ∧ m'.title = m.title)) :
    (s.postMessage h' m' g).2.kind h m = s.kind h m := by
  unfold postMessage
  cases hc : s.map h'.queue with
  | none => rfl
  | some c =>
    refine kind_push (q := h'.queue) (w := s.makeSeq.2.newWrapper h' m' g s.makeSeq.1) ?_
      (matching_other hne (newWrapper_matching h' m' g _ _))
    rw [pushBack_pending, makeSeq_pending, pending_some hc]

theorem broadcastMessage_kind (q : MessageQueue_t) (g : MessageTiming)
    (hne : ¬ (h = ⟨q, 0⟩ ∧ m'.title = m.title)) :
    (s.broadcastMessage q m' g).2.kind h m = s.kind h m := by
  unfold broadcastMessage
  cases hc : s.map q with
  | none => rfl
  | some c =>
    refine kind_push (q := q) (w := s.makeSeq.2.newWrapper ⟨q, 0⟩ m' g s.makeSeq.1) ?_
      (matching_other (fun he => hne ⟨he.1.symm, he.2⟩) (newWrapper_matching ⟨q, 0⟩ m' g _ _))
    rw [pushBack_pending, makeSeq_pending, pending_some hc]

theorem Single.step {a : Act} (hone : Single h m s) (h0 : s.map 0 = none) (ht : Tame h m s a)
    (hs : step s a = some s') : Single h m s' ∧ Stable h m s s' := by
  have hsame : s'.kind h m = s.kind h m → Single h m s' ∧ Stable h m s s' := by
    intro hk
    exact ⟨hone.fewer (by rw [hk]), Or.inr (Or.inr hk)⟩
  by_cases ha : a.posts = true
  · cases a with
    | call t k =>
      obtain ⟨hplain, hzero⟩ := ht t k rfl
      cases step_cases hs with | call _ _ _ _ _ hexec =>
      cases k with
      | postMessage h' m' g =>
        cases hexec
        exact hsame (postMessage_kind g hplain)
      | broadcastMessage q m' g =>
        cases hexec
        exact hsame (broadcastMessage_kind q g hplain)
      | singletonMessage r h' m' g =>
        cases hexec
        have hslot := singletonMessage_slot r h' m' g s
        exact ⟨hslot.single hone hzero, hslot.stable hone⟩
      | fasterMessage h' m' g =>
        obtain ⟨r, hr, rfl⟩ := Option.map_eq_some_iff.mp hexec
        have hslot := fasterMessage_slot hr
        exact ⟨hslot.single hone hzero, hslot.stable hone⟩
      | _ => cases ha
    | _ => cases ha
  · have hk : (s'.kind h m).Sublist (s.kind h m) :=
      step_kind h0 hs (Bool.eq_false_iff.mpr ha)
    exact ⟨hone.fewer hk, hone.stable hk⟩

/-- **Singleton discipline**: where a kind of messages is posted through `SingletonMessage` and
`FasterMessage` only, and never under the number 0, at most one of them is pending; as long as one
is, its id stays, and it is what the callers get. -/
theorem singleton_discipline (hr : Runs.Run step (Tame h m) init s) :
    (s.kind h m).length ≤ 1 ∧
    (∀ a s', Tame h m s a → step s a = some s' →
      s.kind h m = [] ∨ s'.kind h m = [] ∨ s'.kind h m = s.kind h m) ∧
    ∀ m' g r, m'.title = m.title → s.map h.queue ≠ none →
      (∃ b, r = s.singletonMessage b h m' g) ∨ s.fasterMessage h m' g = some r →
      r.2.kind h m = [r.1] ∧ (s.kind h m = [] ∨ s.kind h m = [r.1]) := by
  have hinv : Single h m s ∧ s.map 0 = none := by
    refine hr.keep (P := fun u => Single h m u ∧ u.map 0 = none) ?_
      ⟨⟨Nat.zero_le _, fun i hi => by cases hi⟩, rfl⟩
    rintro u a v ⟨hu, hu0⟩ ha hs
    refine ⟨(hu.step hu0 ha hs).1, ?_⟩
    exact (keep_any (P := fun _ => True) (Runs.Run.one trivial hs) hu0 (fun _ _ _ _ => trivial)
      trivial).2
  obtain ⟨hone, h0⟩ := hinv
  refine ⟨hone.one, fun a s' ha hs => (hone.step h0 ha hs).2, ?_⟩
  intro m' g r ht hc hop
  have hslot : Slot h m' s r.2 r.1 := by
    rcases hop with ⟨b, rfl⟩ | hr
    · exact singletonMessage_slot b h m' g s
    · exact fasterMessage_slot hr
  have hkind := kind_title h ht
  obtain ⟨h1, h2⟩ := hslot.same ⟨by rw [hkind]; exact hone.one, by rw [hkind]; exact hone.number⟩ hc
  rw [hkind] at h1 h2
  refine ⟨h1, ?_⟩
  rcases h2 with ⟨h2, -⟩ | h2
  · exact Or.inl h2
  · exact Or.inr h2

/-- a message of a kind, posted by `SingletonMessage` to the queue 7 -/
def onePost : List Act :=
  [.call 1 (.createMessageQueueInfo 7),
    .call 1 (.singletonMessage true ⟨7, 9⟩ ⟨5, none⟩ ⟨.kImmediately, 0, 0⟩)]

theorem onePost_run : ∃ s, Runs.Run step (Tame ⟨7, 9⟩ ⟨5, none⟩) init s ∧
    s.map 7 ≠ none ∧ s.kind ⟨7, 9⟩ ⟨5, none⟩ = [⟨⟨7, 9⟩, 2⟩] := by
  let s₁ := (init.createMessageQueueInfo 7).2
  let s₂ := (s₁.singletonMessage true ⟨7, 9⟩ ⟨5, none⟩ ⟨.kImmediately, 0, 0⟩).2
  have h₁ : Runs.Run step (Tame ⟨7, 9⟩ ⟨5, none⟩) init s₁ := by
    refine Runs.Run.one (a := .call 1 (.createMessageQueueInfo 7)) ?_ rfl
    intro t k e
    cases e
    exact ⟨id, fun hs => absurd hs id⟩
  refine ⟨s₂, h₁.tail ⟨.call 1 (.singletonMessage true ⟨7, 9⟩ ⟨5, none⟩ ⟨.kImmediately, 0, 0⟩),
    ?_, rfl⟩, Option.some_ne_none _, rfl⟩
  intro t k e
  cases e
  exact ⟨id, fun _ => by decide⟩

theorem singleton_discipline_one : ∃ s : State, s.kind ⟨7, 9⟩ ⟨5, none⟩ = [⟨⟨7, 9⟩, 2⟩] ∧
    (s.singletonMessage true ⟨7, 9⟩ ⟨5, none⟩ later).1 = ⟨⟨7, 9⟩, 2⟩ := by
  obtain ⟨s, hr, hc, hk⟩ := onePost_run
  refine ⟨s, hk, ?_⟩
  have hid := ((singleton_discipline hr).2.2 ⟨5, none⟩ later _ rfl hc (Or.inl ⟨true, rfl⟩)).2
  rw [hk] at hid
  rcases hid with hid | hid
  · cases hid
  · exact (List.cons.inj hid).1.symm

theorem singletonMessage_zero {c : MessageQueueContent} {it : MessageWrapper} (g : MessageTiming)
    (hc : s.map h.queue = some c) (hf : c.lst_message.find? (matching h m) = some it)
    (hz : it.postid.seq = 0) : (s.singletonMessage true h m g).1 = ⟨h, s.s_seq + 1⟩ := by
  unfold singletonMessage
  rw [hc]
  dsimp only
  rw [hf]
  dsimp only
  rw [if_pos rfl, hz, if_neg (fun hne => hne rfl)]
  rfl

theorem onePost_zero (log : List Event) : ∃ s, Runs.exec step
    { blocked with s_seq := 4294967294, log := log } onePost = some s ∧
      s.map 7 ≠ none ∧ s.kind ⟨7, 9⟩ ⟨5, none⟩ = [⟨⟨7, 9⟩, 0⟩] ∧
      (s.singletonMessage true ⟨7, 9⟩ ⟨5, none⟩ later).1 = ⟨⟨7, 9⟩, 1⟩ := by
  have hzero : (4294967294 + 1 + 1 : UInt32) = 0 := by decide
  refine ⟨_, rfl, Option.some_ne_none _, ?_, ?_⟩
  · exact congrArg (fun n => [MessagePost_t.mk ⟨7, 9⟩ n]) hzero
  · refine (singletonMessage_zero later rfl rfl hzero).trans ?_
    exact congrArg (fun n => MessagePost_t.mk ⟨7, 9⟩ (n + 1)) hzero

theorem singleton_renames : ¬ ∀ h m s,
    Runs.Run step (fun _ a => ∀ t k, a = .call t k → ¬ k.plain h m) init s →
      s.map h.queue ≠ none →
      s.kind h m = [] ∨ s.kind h m = [(s.singletonMessage true h m later).1] := by
  intro hall
  obtain ⟨log, hlog, -⟩ := exec_churning (2 ^ 32 - 4)
  have hseq : 2 + UInt32.ofNat (2 ^ 32 - 4) = 4294967294 := by decide
  rw [hseq] at hlog
  obtain ⟨s, hs, hc, hk, hid⟩ := onePost_zero log
  have hexec : Runs.exec step init (churning (2 ^ 32 - 4) ++ onePost) = some s := by
    rw [Runs.exec_append, hlog]
    exact hs
  have hplain : ∀ a ∈ churning (2 ^ 32 - 4) ++ onePost, ∀ t k, a = .call t k →
      ¬ k.plain ⟨7, 9⟩ ⟨5, none⟩ := by
    intro a ha t k e
    subst e
    rcases List.mem_append.mp ha with ha | ha
    · rcases List.mem_append.mp ha with ha | ha
      · simp only [blocker, List.mem_cons, List.not_mem_nil, or_false] at ha
        rcases ha with ha | ha
        · cases ha
          exact id
        · cases ha
          exact fun hp => by cases hp.1
      · cases (List.mem_replicate.mp ha).2
        exact id
    · simp only [onePost, List.mem_cons, List.not_mem_nil, or_false] at ha
      rcases ha with ha | ha
      · cases ha
        exact id
      · cases ha
        exact id
  have hrun := Runs.Run.of_exec_all hexec (fun a ha _ => hplain a ha)
  rcases hall ⟨7, 9⟩ ⟨5, none⟩ s hrun hc with h1 | h1
  · rw [hk] at h1
    cases h1
  · rw [hk, hid] at h1
    cases h1

end MessageQueue
