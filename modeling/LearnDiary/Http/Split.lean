import LearnDiary.Http.Sound

/-!
# Cutting a stream into pieces

The calls for the pieces of a stream end where the one call for the whole stream ends, when no
piece ends inside the blank line of a message without header fields.

* `splits`            by induction on the pieces, along `returns_append`;
* `recv_split`        the pieces and the whole stream end in the same state;
* `recv_split_blank`  a cut inside the blank line tells the two apart.
-/

namespace Http
open Loop

/-- no piece ends inside the blank line of a message without header fields -/
def NoBlankCut (pieces : List Bytes) : Prop :=
  ∀ k, findC crlf pieces.flatten = some k → findC crlf2 pieces.flatten = some k →
    ∀ a b, pieces = a ++ b → a.flatten.length ≠ k + 2 ∧ a.flatten.length ≠ k + 3

theorem uncut_of_length {c : Core} {d t : Bytes}
    (h : ∀ k, findC crlf (d ++ t) = some k → findC crlf2 (d ++ t) = some k →
      d.length ≠ k + 2 ∧ d.length ≠ k + 3) : Uncut c d t := by
  intro _ k h1 h2
  have hle := findC_crlf_le h1
  obtain ⟨h3, h4⟩ := h k (Find.findUpTo_append notNul t h1) h2
  have h5 : crlf2.length = 4 := rfl
  exact Find.findUpTo_front notNul h2 (by omega)

theorem splits (pieces : List Bytes) (p : Parser) (fed : List Bytes) (hne : pieces ≠ [])
    (hpos : ∀ piece ∈ pieces, piece ≠ []) (ht : p.recvbuf_.Tail) (hw : Within p.toCore)
    (hfed : AtStart p.toCore → p.recvbuf_.data = fed.flatten)
    (hlen : p.recvbuf_.length_ + pieces.flatten.length < 2 ^ 31)
    (hcut : NoBlankCut (fed ++ pieces)) (hs : SoundCalls p pieces) :
    ∃ q, RecvAll p pieces q ∧
      Returns (viewTurn rawOverload) (p.toCore, p.recvbuf_.data ++ pieces.flatten) (view q.mem) := by
  induction pieces generalizing p fed with
  | nil => exact absurd rfl hne
  | cons piece rest ih =>
    obtain ⟨he, hcall, hnext⟩ := hs
    rw [List.flatten_cons] at hlen ⊢
    rw [List.length_append] at hlen
    have hpiece := hpos piece List.mem_cons_self
    obtain ⟨q, hq, hkept, hrq, hfair⟩ := recv_sound hpiece ht hw (by omega) he hcall
    by_cases hrest : rest = []
    · rw [hrest, List.flatten_nil, List.append_nil]
      exact ⟨q, .cons hq (.nil q), hrq⟩
    · have hqlen : q.recvbuf_.length_ ≤ p.recvbuf_.length_ + piece.length := by
        rw [← write_length ht]
        exact hkept.le
      have hflat : (fed ++ [piece]) ++ rest = fed ++ piece :: rest := by simp
      have hqfed : AtStart q.toCore → q.recvbuf_.data = (fed ++ [piece]).flatten := by
        intro hst
        obtain ⟨hst', hd⟩ := atStart_returns hrq hst
        have hd' : q.recvbuf_.data = p.recvbuf_.data ++ piece := hd
        rw [hd', hfed hst', List.flatten_append]
        simp
      obtain ⟨r, hr, hz⟩ := ih q (fed ++ [piece]) hrest
        (fun x hx => hpos x (List.mem_cons_of_mem _ hx)) (hkept.tail (ht.write piece))
        hkept.inv.within hqfed (by omega)
        (by rw [hflat]; exact hcut) (hnext q hq)
      refine ⟨r, .cons hq hr, ?_⟩
      have hflatne : rest.flatten ≠ [] := by
        obtain ⟨x, l, rfl⟩ := List.exists_cons_of_ne_nil hrest
        have hx := hpos x (List.mem_cons_of_mem _ List.mem_cons_self)
        simp [hx]
      have hok : (view q.mem).1.recvstatus_.error = false := by
        obtain ⟨x, l, rfl⟩ := List.exists_cons_of_ne_nil hrest
        exact (hnext q hq).1
      have hunc : Uncut p.toCore (p.recvbuf_.data ++ piece) rest.flatten := by
        intro hst
        have hd : p.recvbuf_.data ++ piece = (fed ++ [piece]).flatten := by
          rw [hfed hst, List.flatten_append]
          simp
        have hwhole : (fed ++ [piece]).flatten ++ rest.flatten = (fed ++ piece :: rest).flatten := by
          rw [← List.flatten_append, hflat]
        rw [hd]
        exact uncut_of_length (c := p.toCore) (fun k h1 h2 => hcut k (by rw [← hwhole]; exact h1)
          (by rw [← hwhole]; exact h2) (fed ++ [piece]) rest hflat.symm) hst
      rw [← List.append_assoc]
      exact returns_append hrq hfair hunc hflatne hok hz

/-- **Split invariance.**  A stream of fewer than `2^31` bytes is handed to a fresh parser in
pieces and as a whole; no piece ends inside the blank line of a message without header fields, no
call is made on a parser in an error status, and all iterations are sound.  Then all calls return,
and status, lines, fields, delivered bytes and residue are the same. -/
theorem recv_split (pieces : List Bytes) (hpos : ∀ piece ∈ pieces, piece ≠ [])
    (hlen : pieces.flatten.length < 2 ^ 31) (hcut : NoBlankCut pieces)
    (hsplit : SoundCalls {} pieces) (hwhole : SoundCall {} pieces.flatten) :
    ∃ q w, RecvAll {} pieces q ∧ Recv {} pieces.flatten w ∧ q.toCore = w.toCore ∧
      q.recvbuf_.data = w.recvbuf_.data := by
  have ht : ({} : Parser).recvbuf_.Tail := AutoBuffer.Tail.new
  have hw : Within ({} : Parser).toCore := ⟨{}, rfl, fun _ => rfl, fun h => by cases h⟩
  rcases List.eq_nil_or_concat pieces with rfl | hcons
  · exact ⟨{}, {}, .nil _, recv_nil _, rfl, rfl⟩
  · have hne : pieces ≠ [] := by
      obtain ⟨l, x, rfl⟩ := hcons
      simp
    have hflatne : pieces.flatten ≠ [] := by
      obtain ⟨x, l, rfl⟩ := List.exists_cons_of_ne_nil hne
      have hx := hpos x List.mem_cons_self
      simp [hx]
    have h0 : ({} : Parser).recvbuf_.length_ = 0 := rfl
    obtain ⟨q, hq, hrq⟩ := splits pieces {} [] hne hpos ht hw (fun _ => rfl) (by omega) hcut hsplit
    obtain ⟨w, hw, -, hrw, -⟩ := recv_sound hflatne ht hw (by omega) rfl hwhole
    have e : view q.mem = view w.mem := hrq.det hrw
    exact ⟨q, w, hq, hw, congrArg Prod.fst e, congrArg Prod.snd e⟩

theorem recv_split_ok : ∃ q w,
    RecvAll {} [ascii "HTTP/1.1 200 OK\r\nContent-Length: 3\r\n", ascii "\r\na", ascii "bc"] q ∧
    Recv {} (ascii "HTTP/1.1 200 OK\r\nContent-Length: 3\r\n\r\nabc") w ∧ q.toCore = w.toCore ∧
    q.recvbuf_.data = w.recvbuf_.data :=
  recv_split [ascii "HTTP/1.1 200 OK\r\nContent-Length: 3\r\n", ascii "\r\na", ascii "bc"]
    (by decide) (by decide)
    (fun k h1 h2 => absurd (h1.trans h2.symm) (by decide +kernel))
    (soundCalls_of_within (n := 9) (by decide +kernel))
    (soundCall_of_within (n := 9) (by decide +kernel))

/-- **A cut inside the blank line of a message without header fields**: the whole message ends
the call in `kEnd`, the two pieces leave the parser in `kHeaderFields`. -/
theorem recv_split_blank : ∃ q w,
    RecvAll {} [ascii "HTTP/1.1 200 OK\r\n", ascii "\r\n"] q ∧
    Recv {} (ascii "HTTP/1.1 200 OK\r\n\r\n") w ∧
    q.recvstatus_ = .kHeaderFields ∧ w.recvstatus_ = .kEnd := by
  obtain ⟨q, hq, hqs⟩ := recvAll_of_within (n := 9) (p := {})
    (l := [ascii "HTTP/1.1 200 OK\r\n", ascii "\r\n"])
    (f := fun q => q.recvstatus_ == .kHeaderFields) (by decide +kernel)
  obtain ⟨w, hw, hws⟩ := recv_of_within (n := 9) (p := {})
    (d := ascii "HTTP/1.1 200 OK\r\n\r\n") (f := fun w => w.recvstatus_ == .kEnd)
    (by decide +kernel)
  exact ⟨q, w, hq, hw, by simpa using hqs, by simpa using hws⟩

end Http
