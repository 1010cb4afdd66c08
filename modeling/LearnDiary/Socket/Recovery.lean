import LearnDiary.Socket.SocketPoll
import Mathlib.Data.List.Lattice

/-!
# Taking back what was consigned (comm/unix/socket/socketpoll.cc)

The entries of a host are its own and then a block for each consignor, in the order of their
`Consign`.  `Consign(c, true)` looks for the first descriptor of `c` and erases as many entries as
`c` has.

* `consign_block`      `Consign(c, false)` puts a block at the end;
* `recover_block`      `Consign(c, true)` takes the block of `c` out of the others;
* `consign_recovery`   after all of them the host has its own entries.
-/

namespace SocketPoll
open Runs

/-- `Consign`; none as well where `erase` would go behind the end, and where the assertion on the
entry that is found fails -/
def consignIn (s _consignor : SocketPoll) : Bool → Option (SocketPoll × Bool)
  | false => s.consign _consignor false
  | true =>
    _consignor.events_.head?.bind fun e0 =>
      let it := s.find e0.fd
      if it = s.events_.length ∨ s.events_[it]?.map PollFd.events = some e0.events ∧
          it + _consignor.events_.length ≤ s.events_.length then
        s.consign _consignor true
      else none

/-- a call of `Consign` that returns true -/
def consigning (s : SocketPoll) (a : SocketPoll × Bool) : Option SocketPoll :=
  (s.consignIn a.1 a.2).bind fun t => if t.2 then some t.1 else none

def blocks (cs : List SocketPoll) : List PollFd := cs.flatMap events_

def hosting (host : SocketPoll) (cs : List SocketPoll) : SocketPoll :=
  { host with events_ := host.events_ ++ blocks cs }

/-- consignors with different descriptors, which the host does not have -/
structure Apart (host : SocketPoll) (cs : List SocketPoll) : Prop where
  nonempty : ∀ c ∈ cs, c.events_ ≠ []
  host : ∀ c ∈ cs, host.fds.Disjoint c.fds
  each : cs.Pairwise fun c d => c.fds.Disjoint d.fds

section
variable {host c : SocketPoll} {cs rs rest l₁ l₂ : List SocketPoll}

theorem hosting_nil (host : SocketPoll) : hosting host [] = host := by
  unfold hosting blocks
  rw [List.flatMap_nil, List.append_nil]

theorem blocks_append (l₁ l₂ : List SocketPoll) : blocks (l₁ ++ l₂) = blocks l₁ ++ blocks l₂ :=
  List.flatMap_append

theorem blocks_cons (c : SocketPoll) (cs : List SocketPoll) :
    blocks (c :: cs) = c.events_ ++ blocks cs := List.flatMap_cons

theorem mem_blocks {e : PollFd} (h : e ∈ blocks cs) : ∃ d ∈ cs, e.fd ∈ d.fds := by
  obtain ⟨d, hd, he⟩ := List.mem_flatMap.mp h
  exact ⟨d, hd, List.mem_map_of_mem he⟩

theorem find_behind {s : SocketPoll} {e0 : PollFd} {l post : List PollFd}
    (hs : s.events_ = l ++ e0 :: post) (hl : ∀ e ∈ l, e.fd ≠ e0.fd) : s.find e0.fd = l.length := by
  have hnone : l.findIdx (fun v => v.fd == e0.fd) = l.length :=
    List.findIdx_eq_length_of_false fun e he => by simpa using hl e he
  unfold find
  rw [hs, List.findIdx_append, hnone, if_neg (Nat.lt_irrefl _), List.findIdx_cons,
    beq_self_eq_true]
  exact Nat.zero_add _

theorem find_none {s : SocketPoll} {fd : Int} (hs : ∀ e ∈ s.events_, e.fd ≠ fd) :
    s.find fd = s.events_.length :=
  List.findIdx_eq_length_of_false fun e he => by simpa using hs e he

theorem Apart.front (h : Apart host (l₁ ++ c :: l₂)) {e0 : PollFd} {es : List PollFd}
    (he : c.events_ = e0 :: es) : ∀ e ∈ host.events_ ++ blocks l₁, e.fd ≠ e0.fd := by
  have hc : c ∈ l₁ ++ c :: l₂ := List.mem_append_right _ List.mem_cons_self
  have hfd : e0.fd ∈ c.fds := by
    unfold fds
    rw [he]
    exact List.mem_cons_self
  intro e hin hsame
  rcases List.mem_append.mp hin with hin | hin
  · exact h.host c hc (List.mem_map_of_mem hin) (hsame ▸ hfd)
  · obtain ⟨d, hd, hed⟩ := mem_blocks hin
    have hdc := (List.pairwise_append.mp h.each).2.2 d hd c List.mem_cons_self
    exact hdc hed (hsame ▸ hfd)

/-- **`Consign(c, false)`** puts the block of `c` behind the others. -/
theorem consign_block (h : Apart host (cs ++ [c])) :
    consigning (hosting host cs) (c, false) = some (hosting host (cs ++ [c])) := by
  obtain ⟨e0, es, he⟩ := List.exists_cons_of_ne_nil (h.nonempty c (by simp))
  have hend : (hosting host cs).find e0.fd = (hosting host cs).events_.length :=
    find_none (h.front he)
  have hmore : (hosting host (cs ++ [c])).events_ = (hosting host cs).events_ ++ c.events_ := by
    show _ ++ blocks _ = _ ++ blocks _ ++ _
    rw [blocks_append, blocks_cons, List.append_assoc]
    simp [blocks]
  unfold consigning consignIn consign
  dsimp only
  rw [he, List.head?_cons, Option.map_some, if_neg Bool.false_ne_true, hend,
    if_neg (not_not.mpr rfl), ← he, ← hmore]
  rfl

/-- **`Consign(c, true)`** takes the block of `c` out, and nothing else. -/
theorem recover_block (h : Apart host (l₁ ++ c :: l₂)) :
    consigning (hosting host (l₁ ++ c :: l₂)) (c, true) = some (hosting host (l₁ ++ l₂)) := by
  obtain ⟨e0, es, he⟩ := List.exists_cons_of_ne_nil (h.nonempty c (by simp))
  have hevents : (hosting host (l₁ ++ c :: l₂)).events_ =
      (host.events_ ++ blocks l₁) ++ (c.events_ ++ blocks l₂) := by
    unfold hosting
    rw [blocks_append, blocks_cons, List.append_assoc]
  have hless : (hosting host (l₁ ++ l₂)).events_ = (host.events_ ++ blocks l₁) ++ blocks l₂ := by
    unfold hosting
    rw [blocks_append, List.append_assoc]
  have hit : (hosting host (l₁ ++ c :: l₂)).find e0.fd = (host.events_ ++ blocks l₁).length := by
    have hcons : (hosting host (l₁ ++ c :: l₂)).events_ =
        (host.events_ ++ blocks l₁) ++ e0 :: (es ++ blocks l₂) := by
      rw [hevents, he, List.cons_append]
    exact find_behind hcons (h.front he)
  have hlen : (hosting host (l₁ ++ c :: l₂)).events_.length =
      (host.events_ ++ blocks l₁).length + (c.events_.length + (blocks l₂).length) := by
    rw [hevents, List.length_append]
    exact congrArg _ List.length_append
  have hpos : 0 < c.events_.length := by
    rw [he]
    exact Nat.zero_lt_succ _
  have hat : (hosting host (l₁ ++ c :: l₂)).events_[(host.events_ ++ blocks l₁).length]? =
      some e0 := by
    rw [hevents, he, List.getElem?_append_right (Nat.le_refl _), Nat.sub_self]
    rfl
  unfold consigning consignIn consign
  dsimp only
  -- the entry found is the first of `c`, and its block ends inside of the list
  rw [he, List.head?_cons, Option.bind_some, Option.map_some, if_pos rfl, ← he, hit, hat,
    if_pos (Or.inr ⟨rfl, by omega⟩), if_neg (by omega), hevents, List.take_left, ← List.drop_drop,
    List.drop_left, List.drop_left, ← hless]
  rfl

theorem Apart.sublist (h : Apart host cs) (hs : rs.Sublist cs) : Apart host rs where
  nonempty c hc := h.nonempty c (hs.subset hc)
  host c hc := h.host c (hs.subset hc)
  each := h.each.sublist hs

theorem consign_run (h : Apart host (rs ++ cs)) :
    exec consigning (hosting host rs) (cs.map (·, false)) = some (hosting host (rs ++ cs)) := by
  induction cs generalizing rs with
  | nil => rw [List.append_nil]; rfl
  | cons c cs ih =>
    rw [List.append_cons] at h ⊢
    show (consigning (hosting host rs) (c, false)).bind _ = _
    rw [consign_block (h.sublist (List.sublist_append_left _ _)), Option.bind_some]
    exact ih h

theorem Apart.nodup (h : Apart host cs) : cs.Nodup := by
  refine h.each.imp_of_mem fun {c d} hc _ hcd hsame => ?_
  obtain ⟨e, he⟩ := List.exists_mem_of_ne_nil _ (h.nonempty c hc)
  have hfd : e.fd ∈ c.fds := List.mem_map_of_mem he
  exact hcd hfd (hsame ▸ hfd)

/-- the consignors of `rs` are recovered, and those of `rest` stay in their order -/
theorem recover_run (h : Apart host cs) (hrest : rest.Sublist cs) (hperm : (rs ++ rest).Perm cs) :
    exec consigning (hosting host cs) (rs.map (·, true)) = some (hosting host rest) := by
  classical
  induction rs generalizing cs with
  | nil =>
    have hsame : rest = cs := hrest.eq_of_length hperm.length_eq
    rw [hsame]
    rfl
  | cons c rs ih =>
    have hc : c ∈ cs := hperm.subset List.mem_cons_self
    obtain ⟨l₁, l₂, -, hcs, hsplit⟩ := List.exists_erase_eq hc
    have hnodup := hperm.nodup_iff.mpr h.nodup
    have hnot : c ∉ rest := fun hmem =>
      (List.nodup_cons.mp hnodup).1 (List.mem_append_right _ hmem)
    have hkeep : rest.Sublist (l₁ ++ l₂) := by
      have := hrest.erase c
      rwa [List.erase_of_not_mem hnot, hsplit] at this
    subst hcs
    have hless : (rs ++ rest).Perm (l₁ ++ l₂) := (hperm.trans List.perm_middle).cons_inv
    show (consigning (hosting host (l₁ ++ c :: l₂)) (c, true)).bind _ = _
    rw [recover_block h, Option.bind_some]
    exact ih (h.sublist ((List.Sublist.refl l₁).append (List.sublist_cons_self c l₂))) hkeep hless

/-! ## all of them -/

/-- **Recovery.**  When consignors with different descriptors are consigned in one order and
recovered in another, each of the calls does what it should, and the host has its own entries
again. -/
theorem consign_recovery (host : SocketPoll) (cs : List SocketPoll) (h : Apart host cs) :
    ∃ full, exec consigning host (cs.map (·, false)) = some full ∧
      full.events_ = host.events_ ++ cs.flatMap events_ ∧
      (∀ rs rest : List SocketPoll, rest.Sublist cs → (rs ++ rest).Perm cs →
        ∃ s, exec consigning full (rs.map (·, true)) = some s ∧
          s.events_ = host.events_ ++ rest.flatMap events_) ∧
      ∀ rs : List SocketPoll, rs.Perm cs →
        exec consigning full (rs.map (·, true)) = some host := by
  have hrun : exec consigning (hosting host []) (cs.map (·, false)) = some (hosting host cs) :=
    consign_run h
  rw [hosting_nil] at hrun
  refine ⟨hosting host cs, hrun, rfl, fun rs rest hrest hperm => ?_, fun rs hperm => ?_⟩
  · exact ⟨_, recover_run h hrest hperm, rfl⟩
  · have hall : exec consigning (hosting host cs) (rs.map (·, true)) = some (hosting host []) :=
      recover_run h (List.nil_sublist cs) (by rwa [List.append_nil])
    rwa [hosting_nil] at hall

end

/-- two consignors, recovered in the order in which they came -/
theorem consign_recovery_waiter : ∃ full,
    exec consigning host [(waiter, false), (new { pipes_ := (6, 7) } false, false)] = some full ∧
    exec consigning full [(waiter, true), (new { pipes_ := (6, 7) } false, true)] = some host := by
  have hapart : Apart host [waiter, new { pipes_ := (6, 7) } false] :=
    ⟨by simp [waiter, new, addEvent, find], by simp [host, waiter, new, addEvent, fds, find],
      by simp [waiter, new, addEvent, fds, find]⟩
  obtain ⟨full, hfull, -, -, hall⟩ := consign_recovery _ _ hapart
  exact ⟨full, hfull, hall _ (List.Perm.refl _)⟩

end SocketPoll
