import LearnDiary.Lib.Visits
import LearnDiary.Socket.CheckFsm

/-!
# No connection past a proxy (comm/socket/complexconnect.cc)

The callbacks of the two classes for a proxy, in any order and with any answers.  The status tells
which points lie behind: what was sent to the proxy and which of its replies were found.

* `TunelAsks`, `Granted`  the request to connect on, and the reply that it is done;
* `Greets`, `Chooses`, `SendsAuth`, `Admits`, `Asks`, `Connects`  the same with SOCKS5;
* `httpTunel_checked`, `socks5_checked`  a checked connection has passed them in order.
-/

namespace CheckFsm
open Runs

/-- a callback, with the bytes received before it or the number of those sent -/
inductive Callback where
  | connected (a : Answers)
  | requestSend (a : Answers)
  | sent (n : Nat) (a : Answers)
  | recv (bytes : Bytes) (a : Answers)

def callback (V : Virtual Check Answers) (b : Bufs Check) : Callback → Option (Bufs Check)
  | .connected a => some (V.onConnected a b)
  | .requestSend a => V.onRequestSend a b
  | .sent n a => some (V.onSend a { b with send_buf_ := b.send_buf_.drop n })
  | .recv bytes a => V.onRecv a { b with recv_buf_ := b.recv_buf_ ++ bytes }

def start (observer_ : Bool) : Bufs Check := { own := ⟨observer_, .ECheckInit⟩ }

abbrev Point := Bufs Check → Callback → Prop

/-- `_OnRequestSend` puts `request` behind the bytes `kept` of the send buffer -/
def Sends (V : Virtual Check Answers) (kept : Bufs Check → Bytes) (request : Bytes) : Point :=
  fun b c => ∃ a b', c = .requestSend a ∧ V.onRequestSend a b = some b' ∧
    b'.send_buf_ = kept b ++ request

/-- `_OnRecv` finds a reply with this property in the bytes received so far -/
def Finds (good : Bytes → Prop) : Point :=
  fun b c => ∃ bytes a, c = .recv bytes a ∧ good (b.recv_buf_ ++ bytes)

/-! ## ways to a status -/

/-- what a callback does to the status, `E` being the steps forward of a class -/
inductive Move (E : TCheckStatus → TCheckStatus → Point → Prop) (b b' : Bufs Check) (c : Callback) :
    Prop
  | same (hs : b'.own.check_status_ = b.own.check_status_)
  | again (hs : b'.own.check_status_ = .EConnProxySucc)
  | failed (hs : b'.own.check_status_ = .ECheckFail)
  | verified (hs : b.own.check_status_ = .EProxyConnSvrSucc)
      (hs' : b'.own.check_status_ = .ECheckOK)
  | forward {P : Point} (hE : E b.own.check_status_ b'.own.check_status_ P) (hP : P b c)

/-- the points on a way to a status -/
inductive Way (E : TCheckStatus → TCheckStatus → Point → Prop) : TCheckStatus → List Point → Prop
  | init : Way E .ECheckInit []
  | again : Way E .EConnProxySucc []
  | failed : Way E .ECheckFail []
  | verified {Ps : List Point} (h : Way E .EProxyConnSvrSucc Ps) : Way E .ECheckOK Ps
  | forward {s s' : TCheckStatus} {P : Point} {Ps : List Point} (h : Way E s Ps) (hE : E s s' P) :
      Way E s' (Ps ++ [P])

theorem Move.way {E : TCheckStatus → TCheckStatus → Point → Prop} {b b' : Bufs Check} {c : Callback}
    {Ps : List Point} (hm : Move E b b' c) (hw : Way E b.own.check_status_ Ps) :
    Way E b'.own.check_status_ [] ∨ Way E b'.own.check_status_ Ps ∨
      ∃ P : Point, P b c ∧ Way E b'.own.check_status_ (Ps ++ [P]) := by
  cases hm with
  | same hs =>
    rw [hs]
    exact Or.inr (Or.inl hw)
  | again hs =>
    rw [hs]
    exact Or.inl .again
  | failed hs =>
    rw [hs]
    exact Or.inl .failed
  | verified hs hs' =>
    rw [hs] at hw
    rw [hs']
    exact Or.inr (Or.inl (.verified hw))
  | forward hE hP => exact Or.inr (Or.inr ⟨_, hP, .forward hw hE⟩)

/-- **A class that moves so has come to its status on a way.** -/
theorem run_way {V : Virtual Check Answers} {E : TCheckStatus → TCheckStatus → Point → Prop}
    (hV : ∀ b c b', callback V b c = some b' → Move E b b' c) {observer_ : Bool}
    {l : List Callback} {b : Bufs Check} (h : exec (callback V) (start observer_) l = some b) :
    ∃ Ps, Way E b.own.check_status_ Ps ∧ Visits (callback V) Ps (start observer_) l := by
  refine exec_visits (W := fun b Ps => Way E b.own.check_status_ Ps) .init ?_ h
  intro t c u Ps hu hw
  exact (hV t c u hu).way hw

theorem proxyConnected_status (a : Answers) (b : Bufs Check) :
    (proxyConnected a b).own.check_status_ = b.own.check_status_ ∨
      (proxyConnected a b).own.check_status_ = .EConnProxySucc := by
  unfold proxyConnected
  split
  · exact Or.inl rfl
  · exact Or.inr rfl

theorem verifyRecv_status (a : Answers) (b : Bufs Check) :
    (verifyRecv a b).own.check_status_ = .ECheckOK ∨
      (verifyRecv a b).own.check_status_ = .ECheckFail := by
  unfold verifyRecv
  split
  · exact Or.inl rfl
  · exact Or.inr rfl

theorem connected_status (a : Answers) (b : Bufs Check) :
    connected a b = .EProxyConnSvrSucc ∨ connected a b = .ECheckOK := by
  unfold connected
  split
  · exact Or.inl rfl
  · exact Or.inr rfl

/-! ## the HTTP tunnel -/

/-- a complete response with status 200 -/
def Granted (buf : Bytes) : Prop :=
  ∃ q, Http.Recv {} buf q ∧ q.recvstatus_ = .kEnd ∧ q.statusline_.statuscode_ = 200

theorem parse_recv {turns : Nat} {buf : Bytes} {q : Http.Parser} (h : parse turns buf = some q) :
    Http.Recv {} buf q := by
  unfold parse at h
  split at h
  · rename_i hnil
    cases h
    rw [hnil]
    exact Http.recv_nil {}
  · rename_i hne
    split at h
    · rename_i r hr
      cases h
      unfold Http.Recv
      rw [if_neg hne]
      exact Loop.Returns.of_iter hr
    · cases h

/-- the request to connect on -/
def TunelAsks (p : Proxied) : Point := Sends (httpTunel p) Bufs.send_buf_ (connectRequest p)

inductive TunelForward (p : Proxied) : TCheckStatus → TCheckStatus → Point → Prop
  | asks : TunelForward p .EConnProxySucc .EProxyHttpTunelConnSvrReq (TunelAsks p)
  | verify : TunelForward p .EProxyHttpTunelConnSvrReq .EProxyConnSvrSucc (Finds Granted)
  | done : TunelForward p .EProxyHttpTunelConnSvrReq .ECheckOK (Finds Granted)

section
variable {p : Proxied} {b b' : Bufs Check} {a : Answers}

theorem tunel_requestSend (h : (httpTunel p).onRequestSend a b = some b') :
    Move (TunelForward p) b b' (.requestSend a) := by
  have hsend := h
  unfold httpTunel at h
  dsimp only at h
  split at h
  · rename_i hst
    cases h
    refine .forward (P := TunelAsks p) ?_ ⟨a, _, rfl, hsend, rfl⟩
    rw [hst]
    exact .asks
  · split at h
    · cases h
      split
      · exact .same rfl
      · exact .failed rfl
    · cases h
  · cases h
    exact .same rfl

theorem tunel_recv {bytes : Bytes}
    (h : (httpTunel p).onRecv a { b with recv_buf_ := b.recv_buf_ ++ bytes } = some b') :
    Move (TunelForward p) b b' (.recv bytes a) := by
  unfold httpTunel at h
  dsimp only at h
  split at h
  · cases h
    exact .same rfl
  · rename_i hst
    obtain ⟨q, hq, rfl⟩ := Option.map_eq_some_iff.mp h
    split
    · exact .same rfl
    rename_i hend
    split
    · rename_i h200
      have hgrant : Finds Granted b (.recv bytes a) :=
        ⟨bytes, a, rfl, q, parse_recv hq, not_not.mp hend, h200⟩
      have hst' : b.own.check_status_ = .EProxyHttpTunelConnSvrReq := hst
      refine .forward (P := Finds Granted) ?_ hgrant
      rw [hst']
      show TunelForward p _ (connected a _) _
      rcases connected_status a { b with recv_buf_ := b.recv_buf_ ++ bytes } with hc | hc
      · rw [hc]
        exact .verify
      · rw [hc]
        exact .done
    · exact .failed rfl
  · rename_i hst
    cases h
    rcases verifyRecv_status a { b with recv_buf_ := b.recv_buf_ ++ bytes } with hv | hv
    · exact .verified hst hv
    · exact .failed hv
  · cases h
    exact .same rfl

theorem tunel_move {c : Callback} (h : callback (httpTunel p) b c = some b') :
    Move (TunelForward p) b b' c := by
  cases c with
  | connected a =>
    cases h
    rcases proxyConnected_status a b with hs | hs
    · exact .same hs
    · exact .again hs
  | requestSend a => exact tunel_requestSend h
  | sent n a =>
    cases h
    exact .same rfl
  | recv bytes a => exact tunel_recv h

theorem tunel_way {Ps : List Point} (h : Way (TunelForward p) .ECheckOK Ps) :
    Ps = [TunelAsks p, Finds Granted] := by
  have hreq : ∀ Ps, Way (TunelForward p) .EProxyHttpTunelConnSvrReq Ps → Ps = [TunelAsks p] := by
    intro Ps h
    cases h with
    | forward h hE =>
      cases hE
      cases h with
      | again => rfl
      | forward _ hE => cases hE
  have hgrant : ∀ s P Ps, Way (TunelForward p) s Ps → TunelForward p s .ECheckOK P →
      Ps ++ [P] = [TunelAsks p, Finds Granted] := by
    intro s P Ps h hE
    cases hE
    rw [hreq _ h]
    rfl
  cases h with
  | forward h hE => exact hgrant _ _ _ h hE
  | verified h =>
    cases h with
    | forward h hE =>
      cases hE
      rw [hreq _ h]
      rfl

/-- **A tunnel passes the check only behind its request and a reply with status 200.** -/
theorem httpTunel_checked (p : Proxied) (observer_ : Bool) (l : List Callback) (b : Bufs Check)
    (h : exec (callback (httpTunel p)) (start observer_) l = some b)
    (hok : b.own.check_status_ = .ECheckOK) :
    Visits (callback (httpTunel p)) [TunelAsks p, Finds Granted] (start observer_) l := by
  obtain ⟨Ps, hw, hv⟩ := run_way (fun _ _ _ h => tunel_move h) h
  rw [hok] at hw
  rw [tunel_way hw] at hv
  exact hv

end

/-! ## SOCKS5 -/

/-- the first two bytes of a reply -/
def Replies (ver second : UInt8) (buf : Bytes) : Prop := buf[0]? = some ver ∧ buf[1]? = some second

/-- a complete reply that says the proxy has connected on -/
def Connects (buf : Bytes) : Prop :=
  connReplyShort buf = false ∧ Replies kSocks5Version kSocks5RespStatus buf

def Greets (p : Proxied) : Point := Sends (socks5 p) (fun _ => []) (socks5_greet_data p)
def SendsAuth (p : Proxied) : Point := Sends (socks5 p) (fun _ => []) (authRequest p)
def Asks (p : Proxied) : Point := Sends (socks5 p) (fun _ => []) (connSvrRequest p)

/-- the proxy chooses how to authenticate -/
def Chooses (method : UInt8) : Point := Finds (Replies kSocks5Version method)
def Admits : Point := Finds (Replies kSocks5AuthVersion kSocks5RespStatus)

inductive Socks5Forward (p : Proxied) : TCheckStatus → TCheckStatus → Point → Prop
  | greets : Socks5Forward p .EConnProxySucc .EProxySocks5GreetReq (Greets p)
  | plain : Socks5Forward p .EProxySocks5GreetReq .EProxySocks5AuthSucc (Chooses kSocks5NoAuth)
  | chooses : Socks5Forward p .EProxySocks5GreetReq .EProxySocks5GreetSucc
      (Chooses kSocks5UsrNamePwdAuth)
  | auth : Socks5Forward p .EProxySocks5GreetSucc .EProxySocks5AuthReq (SendsAuth p)
  | admits : Socks5Forward p .EProxySocks5AuthReq .EProxySocks5AuthSucc Admits
  | asks : Socks5Forward p .EProxySocks5AuthSucc .EProxySocks5ConnSvrReq (Asks p)
  | verify : Socks5Forward p .EProxySocks5ConnSvrReq .EProxyConnSvrSucc (Finds Connects)
  | done : Socks5Forward p .EProxySocks5ConnSvrReq .ECheckOK (Finds Connects)

section
variable {p : Proxied} {b b' : Bufs Check} {a : Answers}

theorem getD_some {buf : Bytes} {i : Nat} (h : i < buf.length) : buf[i]? = some (buf.getD i 0) := by
  rw [List.getD_eq_getElem?_getD, List.getElem?_eq_getElem h]
  rfl

theorem replies_of {buf : Bytes} {ver second : UInt8} (hlen : ¬ buf.length < 2)
    (h0 : buf.getD 0 0 = ver) (h1 : buf.getD 1 0 = second) : Replies ver second buf := by
  refine ⟨?_, ?_⟩
  · rw [← h0]
    exact getD_some (by omega)
  · rw [← h1]
    exact getD_some (by omega)

theorem short_length {buf : Bytes} (h : ¬ connReplyShort buf = true) : ¬ buf.length < 2 := by
  intro hlt
  refine h ?_
  unfold connReplyShort
  simp only [Bool.or_eq_true, decide_eq_true_eq]
  exact Or.inl (Or.inl (Or.inl (by omega)))

theorem socks5_requestSend (h : (socks5 p).onRequestSend a b = some b') :
    Move (Socks5Forward p) b b' (.requestSend a) := by
  have hsend := h
  unfold socks5 at h
  dsimp only at h
  split at h
  · rename_i hst
    cases h
    refine .forward (P := Greets p) ?_ ⟨a, _, rfl, hsend, rfl⟩
    rw [hst]
    exact .greets
  · rename_i hst
    split at h
    · cases h
      exact .failed rfl
    · cases h
      refine .forward (P := SendsAuth p) ?_ ⟨a, _, rfl, hsend, rfl⟩
      rw [hst]
      exact .auth
  · rename_i hst
    cases h
    refine .forward (P := Asks p) ?_ ⟨a, _, rfl, hsend, rfl⟩
    rw [hst]
    exact .asks
  · split at h
    · cases h
      split
      · exact .same rfl
      · exact .failed rfl
    · cases h
      exact .same rfl
  · cases h
    exact .same rfl

theorem socks5_recv {bytes : Bytes}
    (h : (socks5 p).onRecv a { b with recv_buf_ := b.recv_buf_ ++ bytes } = some b') :
    Move (Socks5Forward p) b b' (.recv bytes a) := by
  unfold socks5 at h
  dsimp only at h
  split at h
  · cases h
    exact .same rfl
  · rename_i hst
    have hst' : b.own.check_status_ = .EProxySocks5GreetReq := hst
    split at h
    · cases h
      exact .same rfl
    rename_i hlen
    split at h
    · cases h
      exact .failed rfl
    rename_i hver
    split at h
    · rename_i hm
      cases h
      refine .forward (P := Chooses kSocks5NoAuth) ?_
        ⟨bytes, a, rfl, replies_of hlen (not_not.mp hver) hm⟩
      rw [hst']
      exact .plain
    split at h
    · rename_i hm
      cases h
      refine .forward (P := Chooses kSocks5UsrNamePwdAuth) ?_
        ⟨bytes, a, rfl, replies_of hlen (not_not.mp hver) hm⟩
      rw [hst']
      exact .chooses
    · cases h
      exact .failed rfl
  · rename_i hst
    have hst' : b.own.check_status_ = .EProxySocks5AuthReq := hst
    split at h
    · cases h
      exact .same rfl
    rename_i hlen
    split at h
    · cases h
      exact .failed rfl
    rename_i hbad
    obtain ⟨hver, hstat⟩ := not_or.mp hbad
    cases h
    refine .forward (P := Admits) ?_
      ⟨bytes, a, rfl, replies_of hlen (not_not.mp hver) (not_not.mp hstat)⟩
    rw [hst']
    exact .admits
  · rename_i hst
    have hst' : b.own.check_status_ = .EProxySocks5ConnSvrReq := hst
    split at h
    · cases h
      exact .same rfl
    rename_i hshort
    split at h
    · cases h
      exact .failed rfl
    rename_i hbad
    obtain ⟨hver, hstat⟩ := not_or.mp hbad
    have hgood : Connects (b.recv_buf_ ++ bytes) :=
      ⟨Bool.eq_false_of_not_eq_true hshort,
        replies_of (short_length hshort) (not_not.mp hver) (not_not.mp hstat)⟩
    cases h
    refine .forward (P := Finds Connects) ?_ ⟨bytes, a, rfl, hgood⟩
    rw [hst']
    show Socks5Forward p _ (connected a _) _
    rcases connected_status a { b with recv_buf_ := b.recv_buf_ ++ bytes } with hc | hc
    · rw [hc]
      exact .verify
    · rw [hc]
      exact .done
  · rename_i hst
    cases h
    rcases verifyRecv_status a { b with recv_buf_ := b.recv_buf_ ++ bytes } with hv | hv
    · exact .verified hst hv
    · exact .failed hv
  · cases h
    exact .same rfl

theorem socks5_move {c : Callback} (h : callback (socks5 p) b c = some b') :
    Move (Socks5Forward p) b b' c := by
  cases c with
  | connected a =>
    cases h
    rcases proxyConnected_status a b with hs | hs
    · exact .same hs
    · exact .again hs
  | requestSend a => exact socks5_requestSend h
  | sent n a =>
    cases h
    exact .same rfl
  | recv bytes a => exact socks5_recv h

/-- without and with user and password -/
def socks5Ways (p : Proxied) : List (List Point) :=
  [[Greets p, Chooses kSocks5NoAuth],
    [Greets p, Chooses kSocks5UsrNamePwdAuth, SendsAuth p, Admits]]

theorem socks5_greeted {Ps : List Point} (h : Way (Socks5Forward p) .EProxySocks5GreetReq Ps) :
    Ps = [Greets p] := by
  cases h with
  | forward h hE =>
    cases hE
    cases h with
    | again => rfl
    | forward _ hE => cases hE

theorem socks5_authed {Ps : List Point} (h : Way (Socks5Forward p) .EProxySocks5AuthSucc Ps) :
    Ps ∈ socks5Ways p := by
  cases h with
  | forward h hE =>
    cases hE with
    | plain =>
      rw [socks5_greeted h]
      exact List.mem_cons_self
    | admits =>
      cases h with
      | forward h hE =>
        cases hE
        cases h with
        | forward h hE =>
          cases hE
          rw [socks5_greeted h]
          exact List.mem_cons_of_mem _ List.mem_cons_self

theorem socks5_asked {Ps : List Point} (h : Way (Socks5Forward p) .EProxySocks5ConnSvrReq Ps) :
    ∃ w ∈ socks5Ways p, Ps = w ++ [Asks p] := by
  cases h with
  | forward h hE =>
    cases hE
    exact ⟨_, socks5_authed h, rfl⟩

theorem socks5_way {Ps : List Point} (h : Way (Socks5Forward p) .ECheckOK Ps) :
    ∃ w ∈ socks5Ways p, Ps = w ++ [Asks p, Finds Connects] := by
  have hdone : ∀ Ps, Way (Socks5Forward p) .EProxySocks5ConnSvrReq Ps →
      ∃ w ∈ socks5Ways p, Ps ++ [Finds Connects] = w ++ [Asks p, Finds Connects] := by
    intro Ps h
    obtain ⟨w, hw, rfl⟩ := socks5_asked h
    exact ⟨w, hw, List.append_assoc _ _ _⟩
  cases h with
  | forward h hE =>
    cases hE
    exact hdone _ h
  | verified h =>
    cases h with
    | forward h hE =>
      cases hE
      exact hdone _ h

/-- **SOCKS5 passes the check only behind a greeting, the authentication the proxy chose, the request
to connect on and a reply that it did.** -/
theorem socks5_checked (p : Proxied) (observer_ : Bool) (l : List Callback) (b : Bufs Check)
    (h : exec (callback (socks5 p)) (start observer_) l = some b)
    (hok : b.own.check_status_ = .ECheckOK) :
    ∃ w ∈ socks5Ways p,
      Visits (callback (socks5 p)) (w ++ [Asks p, Finds Connects]) (start observer_) l := by
  obtain ⟨Ps, hw, hv⟩ := run_way (fun _ _ _ h => socks5_move h) h
  rw [hok] at hw
  obtain ⟨w, hmem, rfl⟩ := socks5_way hw
  exact ⟨w, hmem, hv⟩

end

/-- **No connection passes the check without the proxy's consent**, whatever the observer answers and
in whatever order the callbacks come. -/
theorem no_proxy_bypass (p : Proxied) (observer_ : Bool) (l : List Callback) (b : Bufs Check)
    (hok : b.own.check_status_ = .ECheckOK) :
    (exec (callback (httpTunel p)) (start observer_) l = some b →
      Visits (callback (httpTunel p)) [TunelAsks p, Finds Granted] (start observer_) l) ∧
    (exec (callback (socks5 p)) (start observer_) l = some b →
      ∃ w ∈ socks5Ways p,
        Visits (callback (socks5 p)) (w ++ [Asks p, Finds Connects]) (start observer_) l) :=
  ⟨fun h => httpTunel_checked p observer_ l b h hok, fun h => socks5_checked p observer_ l b h hok⟩

def account : Proxied := ⟨ascii "1.2.3.4", [1, 2, 3, 4], 80, ascii "u", ascii "p"⟩

def tunelRun : List Callback := [.connected {}, .requestSend {},
  .recv (ascii "HTTP/1.1 200 OK") { turns := 5 }, .recv (ascii "\r\n\r\n") { turns := 5 }]

def socks5Run : List Callback := [.connected {}, .requestSend {}, .recv [5] {}, .recv [2] {},
  .requestSend {}, .recv [1, 0] {}, .requestSend {}, .recv [5, 0, 0, 1, 9, 9] {}, .recv [9, 9, 0, 80] {}]

theorem no_proxy_bypass_account : ∃ b b',
    exec (callback (httpTunel account)) (start false) tunelRun = some b ∧
    exec (callback (socks5 account)) (start false) socks5Run = some b' ∧
    Visits (callback (httpTunel account)) [TunelAsks account, Finds Granted] (start false) tunelRun ∧
    ∃ w ∈ socks5Ways account,
      Visits (callback (socks5 account)) (w ++ [Asks account, Finds Connects]) (start false)
        socks5Run := by
  obtain ⟨b, hb, hok⟩ : ∃ b, exec (callback (httpTunel account)) (start false) tunelRun = some b ∧
      b.own.check_status_ = .ECheckOK := by
    have h : (exec (callback (httpTunel account)) (start false) tunelRun).any
        (fun b => b.own.check_status_ == .ECheckOK) = true := by decide +kernel
    obtain ⟨b, hb, hs⟩ := (Option.any_eq_true _ _).mp h
    exact ⟨b, hb, beq_iff_eq.mp hs⟩
  obtain ⟨b', hb', hok'⟩ : ∃ b, exec (callback (socks5 account)) (start false) socks5Run = some b ∧
      b.own.check_status_ = .ECheckOK := ⟨_, rfl, rfl⟩
  exact ⟨b, b', hb, hb', (no_proxy_bypass _ _ _ b hok).1 hb, (no_proxy_bypass _ _ _ b' hok').2 hb'⟩

end CheckFsm
