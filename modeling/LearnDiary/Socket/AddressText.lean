import LearnDiary.Comm.StringCast
import LearnDiary.Socket.Inet6

/-!
# Addresses and their texts (comm/socket/socket_address.cc)

The constructor from a url scans for `a.b.c.d:port`, then for `[ip]:port`, then for an address alone,
into the 40 bytes of `ip_s`; a scan that writes behind them has no outcome.  The other constructor
asks `inet_pton`.  `__init` shows the IPv4 address of any address that starts with 64:ff9b.

* `ofUrl_v4`, `ofUrl_v6`   the urls that are printed;
* `url_roundtrip`          which addresses come back from their url;
* `agrees_iff`             which literals the scans take for what they are;
* `ofUrl_inside`           which texts the scans store inside of `ip_s`;
* `address_text`           all three.
-/

namespace AddressText
open Nat64 (In6Addr)
open Dns (InAddr)
open Inet6 (Plain isText)

/-! ## the code -/

inductive Host where
  | inet (sin_addr : InAddr)
  | inet6 (sin6_addr : In6Addr)
deriving DecidableEq

/-- `addr_`, the port in host order; `none` is `AF_UNSPEC` -/
abbrev Addr := Option (Host × UInt16)

structure SocketAddress where
  addr_ : Addr
  ip_ : Bytes
  url_ : Bytes
deriving DecidableEq

def kWellKnownNat64Prefix : Bytes := ascii "64:ff9b::"

/-- `IN6_IS_ADDR_NAT64`: only the first four bytes are compared -/
def in6IsAddrNat64 (a6 : In6Addr) : Bool := a6.s6_addr.take 4 == [0, 100, 255, 155]

/-- `s6_addr32[3]` -/
def lastV4 (a6 : In6Addr) : InAddr :=
  match a6.s6_addr.drop 12 with
  | [a, b, c, d] => ⟨a, b, c, d⟩
  | _ => ⟨0, 0, 0, 0⟩

/-- what `__init` puts into `ip_` -/
def ipText : Host → Bytes
  | .inet sin_addr => sin_addr.socket_inet_ntop
  | .inet6 sin6_addr =>
    if in6IsAddrNat64 sin6_addr then kWellKnownNat64Prefix ++ (lastV4 sin6_addr).socket_inet_ntop
    else Inet6.ntop sin6_addr

/-- `"%s:%u"` or `"[%s]:%u"`, into 128 bytes -/
def urlText (h : Host) (port : UInt16) : Bytes :=
  match h with
  | .inet _ => (ipText h ++ (58 :: printNat 10 port.toNat)).take 127
  | .inet6 _ => (91 :: (ipText h ++ (93 :: 58 :: printNat 10 port.toNat))).take 127

/-- `__init` -/
def init (_addr : Addr) : SocketAddress :=
  match _addr with
  | none => ⟨none, [], []⟩
  | some (h, port) => ⟨some (h, port), ipText h, urlText h port⟩

/-- the set `[0-9.]` -/
def isDotted (c : UInt8) : Bool := (48 ≤ c && c ≤ 57) || c == 46

/-- `%<width>[set]` -/
def scanSet (width : Nat) (set : UInt8 → Bool) (s : Bytes) : Bytes := (s.take width).takeWhile set

/-- `%8hu`, where there is a number -/
def scanPort (s : Bytes) : Option UInt16 :=
  let item := (s.dropWhile isspace).take 8
  let (neg, sign) := StringCast.signAt item
  let number := (item.drop sign).takeWhile (fun c => 48 ≤ c && c ≤ 57)
  if number = [] then none
  else
    let value := UInt16.ofNat (digits 10 number 0)
    some (if neg then -value else value)

/-- the result of a scan: nothing is stored, or the address and the port -/
abbrev Scanned := Option (Bytes × UInt16)

/-- `ip` goes into `ip_s`, with a NUL behind it; `port_u` stays 0 where no port is stored -/
def storeIp (ip : Bytes) (port : Option UInt16) : Option Scanned :=
  if ip = [] then some none
  else if ip.length + 1 ≤ 40 then some (some (ip, port.getD 0))
  else none

/-- `"%15[0-9.]:%8hu"` -/
def scanDotted (_url : Bytes) : Option Scanned :=
  let ip := scanSet 15 isDotted _url
  storeIp ip (match _url.drop ip.length with
    | 58 :: t => scanPort t
    | _ => none)

/-- `"[%40[0-9a-fA-F:.]]:%8hu"` -/
def scanBracket (_url : Bytes) : Option Scanned :=
  match _url with
  | 91 :: s =>
    let ip := scanSet 40 isText s
    storeIp ip (match s.drop ip.length with
      | 93 :: 58 :: t => scanPort t
      | _ => none)
  | _ => some none

/-- `"%40[0-9a-fA-F:.]"` -/
def scanBare (_url : Bytes) : Option Scanned := storeIp (scanSet 40 isText _url) none

/-- the address stays zero where `inet_pton` does not take the text -/
def inetOf (ip_s : Bytes) : InAddr := (Dns.socket_inet_pton ip_s).getD Dns.INADDR_ANY

def in6addr_any : In6Addr := ⟨List.replicate 16 0, rfl⟩

def inet6Of (ip_s : Bytes) : In6Addr := (Inet6.pton ip_s).getD in6addr_any

/-- `socket_address(_url)` -/
def ofUrl (_url : Bytes) : Option SocketAddress :=
  let s := cstr _url
  (scanDotted s).bind fun
    | some (ip_s, port_u) => some (init (some (.inet (inetOf ip_s), port_u)))
    | none => (scanBracket s).bind fun
      | some (ip_s, port_u) => some (init (some (.inet6 (inet6Of ip_s), port_u)))
      | none => (scanBare s).bind fun
        | some (ip_s, port_u) => some (init (some (.inet6 (inet6Of ip_s), port_u)))
        | none => some (init none)

/-- `socket_address(_ip, _port)` -/
def ofIp (_ip : Bytes) (_port : UInt16) : SocketAddress :=
  match Dns.socket_inet_pton (cstr _ip) with
  | some addr4 => init (some (.inet addr4, _port))
  | none =>
    match Inet6.pton (cstr _ip) with
    | some addr6 => init (some (.inet6 addr6, _port))
    | none => init none

/-! ## the scans -/

theorem scanSet_stop {width : Nat} {set : UInt8 → Bool} {u v : Bytes} {c : UInt8}
    (hu : ∀ x ∈ u, set x = true) (hc : set c = false) (hlen : u.length ≤ width) :
    scanSet width set (u ++ c :: v) = u := by
  unfold scanSet
  rw [← List.take_takeWhile, List.takeWhile_append_of_pos hu,
    List.takeWhile_cons_of_neg (by rw [hc]; exact Bool.false_ne_true), List.append_nil,
    List.take_of_length_le hlen]

theorem scanSet_all {width : Nat} {set : UInt8 → Bool} {u : Bytes} (hu : ∀ x ∈ u, set x = true) :
    scanSet width set u = u.take width := by
  unfold scanSet
  exact List.takeWhile_eq_self_iff.mpr fun x hx => hu x (List.mem_of_mem_take hx)

theorem scanSet_none {width : Nat} {set : UInt8 → Bool} {c : UInt8} {v : Bytes}
    (hc : set c = false) : scanSet width set (c :: v) = [] := by
  unfold scanSet
  cases width with
  | zero => rfl
  | succ n =>
    rw [List.take_succ_cons, List.takeWhile_cons_of_neg (by rw [hc]; exact Bool.false_ne_true)]

theorem storeIp_some {ip : Bytes} (hne : ip ≠ []) (hlen : ip.length ≤ 39) (port : Option UInt16) :
    storeIp ip port = some (some (ip, port.getD 0)) := by
  unfold storeIp
  rw [if_neg hne, if_pos (by omega)]

theorem scanPort_printNat (port : UInt16) : scanPort (printNat 10 port.toNat) = some port := by
  have hlt := port.toNat_lt
  have hlen : (printNat 10 port.toNat).length ≤ 5 := printNat_length (k := 4) (by omega)
  have hdigit : ∀ c ∈ printNat 10 port.toNat, ∃ d < 10, c = digitChar d :=
    fun c hc => printNat_mem (by decide) hc
  have hspace : ∀ c ∈ printNat 10 port.toNat, isspace c = false := by
    intro c hc
    obtain ⟨d, hd, rfl⟩ := hdigit c hc
    exact (digitChar_ne (by omega)).1
  have hfigure : ∀ c ∈ printNat 10 port.toNat, (48 ≤ c && c ≤ 57) = true := by
    intro c hc
    have := Inet6.mem_decimal hc
    simpa using this
  have hvalue : digits 10 (printNat 10 port.toNat) 0 = port.toNat :=
    digits_toDigits (by decide) (by decide) (Nat.lt_succ_self _)
  unfold scanPort
  rw [dropWhile_isspace hspace, List.take_of_length_le (by omega)]
  simp only [StringCast.printNat_sign, List.drop_zero, List.takeWhile_eq_self_iff.mpr hfigure,
    printNat_ne_nil, if_false, hvalue]
  simp

/-! ## urls -/

theorem v4Text_dotted (x : InAddr) : ∀ c ∈ x.socket_inet_ntop, isDotted c = true := by
  intro c hc
  rcases Inet6.mem_v4Text hc with rfl | ⟨d, hd, rfl⟩
  · decide
  · interval_cases d <;> decide

theorem cstr_of_plain {s : Bytes} (h : ∀ c ∈ s, c ≠ 0) : cstr s = s :=
  Find.upTo_eq_self notNul fun c hc => by
    unfold notNul
    simpa using h c hc

theorem isText_ne {c : UInt8} (h : isText c = true) : c ≠ 0 ∧ c ≠ 91 := by
  constructor
  · rintro rfl
    exact absurd h (by decide)
  · rintro rfl
    exact absurd h (by decide)

theorem port_ne (port : UInt16) : ∀ c ∈ printNat 10 port.toNat, c ≠ 0 := by
  intro c hc
  obtain ⟨d, hd, rfl⟩ := printNat_mem (by decide) hc
  interval_cases d <;> decide

theorem length_port (port : UInt16) : (printNat 10 port.toNat).length ≤ 5 :=
  printNat_length (k := 4) (by have := port.toNat_lt; omega)

theorem ofUrl_dotted {s ip : Bytes} {port : UInt16} (hs : cstr s = s)
    (h : scanDotted s = some (some (ip, port))) :
    ofUrl s = some (init (some (.inet (inetOf ip), port))) := by
  unfold ofUrl
  dsimp only
  rw [hs, h]
  rfl

theorem ofUrl_bracket {s ip : Bytes} {port : UInt16} (hs : cstr s = s) (h : scanDotted s = some none)
    (hb : scanBracket s = some (some (ip, port))) :
    ofUrl s = some (init (some (.inet6 (inet6Of ip), port))) := by
  unfold ofUrl
  dsimp only
  rw [hs, h, Option.bind_some]
  dsimp only
  rw [hb]
  rfl

theorem inetOf_some {s : Bytes} {x : InAddr} (h : Dns.socket_inet_pton s = some x) : inetOf s = x := by
  unfold inetOf
  rw [h]
  rfl

theorem inet6Of_some {s : Bytes} {x : In6Addr} (h : Inet6.pton s = some x) : inet6Of s = x := by
  unfold inet6Of
  rw [h]
  rfl

theorem ne_nil_of_pton {s : Bytes} {x : In6Addr} (h : Inet6.pton s = some x) : s ≠ [] := by
  have hnil : Inet6.pton [] = none := by decide +kernel
  rintro rfl
  rw [hnil] at h
  cases h

/-- the text of an address fits `ip_s` and has characters of an address only -/
theorem ipText_inet6 (x : In6Addr) :
    Plain (ipText (.inet6 x)) ∧ (ipText (.inet6 x)).length ≤ 39 ∧ ipText (.inet6 x) ≠ [] := by
  unfold ipText
  dsimp only
  split
  · have h15 := Inet6.length_v4Text (lastV4 x)
    have h9 : kWellKnownNat64Prefix.length = 9 := by decide
    refine ⟨fun c hc => ?_, ?_, ?_⟩
    · rcases List.mem_append.mp hc with hc | hc
      · have hall : ∀ c ∈ kWellKnownNat64Prefix, isText c = true := by
          have := (by decide : kWellKnownNat64Prefix.all isText = true)
          exact List.all_eq_true.mp this
        exact hall c hc
      · exact Inet6.v4Text_plain _ c hc
    · rw [List.length_append]
      omega
    · intro h
      have := congrArg List.length h
      rw [List.length_append, List.length_nil] at this
      omega
  · exact ⟨(Inet6.ntop_plain x).1, (Inet6.ntop_plain x).2, ne_nil_of_pton (Inet6.pton_ntop x)⟩

theorem ofUrl_v4 (x : InAddr) (port : UInt16) :
    ofUrl (urlText (.inet x) port) = some (init (some (.inet x, port))) := by
  have h15 := Inet6.length_v4Text x
  have h5 := length_port port
  have hurl : urlText (.inet x) port = x.socket_inet_ntop ++ (58 :: printNat 10 port.toNat) :=
    List.take_of_length_le (by
      show (x.socket_inet_ntop ++ (58 :: printNat 10 port.toNat)).length ≤ 127
      rw [List.length_append, List.length_cons]
      omega)
  have hcstr : cstr (urlText (.inet x) port) = urlText (.inet x) port := by
    apply cstr_of_plain
    rw [hurl]
    intro c hc
    rcases List.mem_append.mp hc with hc | hc
    · exact (isText_ne (Inet6.v4Text_plain x c hc)).1
    · rcases List.mem_cons.mp hc with rfl | hc
      · decide
      · exact port_ne port c hc
  have hset : scanSet 15 isDotted (urlText (.inet x) port) = x.socket_inet_ntop := by
    rw [hurl]
    exact scanSet_stop (v4Text_dotted x) (by decide) h15
  have hscan : scanDotted (urlText (.inet x) port) = some (some (x.socket_inet_ntop, port)) := by
    unfold scanDotted
    dsimp only
    rw [hset]
    conv_lhs => rw [hurl]
    rw [List.drop_left]
    simp only
    rw [storeIp_some (Inet6.v4_token x).1 (by omega), scanPort_printNat]
    rfl
  rw [ofUrl_dotted hcstr hscan, inetOf_some (Dns.pton_ntop x)]

theorem ofUrl_v6 (x : In6Addr) (port : UInt16) :
    ofUrl (urlText (.inet6 x) port) =
      some (init (some (.inet6 (inet6Of (ipText (.inet6 x))), port))) := by
  obtain ⟨hplain, h39, hne⟩ := ipText_inet6 x
  have h5 := length_port port
  have hurl : urlText (.inet6 x) port =
      91 :: (ipText (.inet6 x) ++ (93 :: 58 :: printNat 10 port.toNat)) :=
    List.take_of_length_le (by
      rw [List.length_cons, List.length_append, List.length_cons, List.length_cons]
      omega)
  have hcstr : cstr (urlText (.inet6 x) port) = urlText (.inet6 x) port := by
    apply cstr_of_plain
    rw [hurl]
    intro c hc
    simp only [List.mem_cons, List.mem_append] at hc
    rcases hc with rfl | hc | rfl | rfl | hc
    · decide
    · exact (isText_ne (hplain c hc)).1
    · decide
    · decide
    · exact port_ne port c hc
  have hdotted : scanDotted (urlText (.inet6 x) port) = some none := by
    unfold scanDotted
    rw [hurl, scanSet_none (by decide)]
    rfl
  have hbracket : scanBracket (urlText (.inet6 x) port) =
      some (some (ipText (.inet6 x), port)) := by
    rw [hurl]
    unfold scanBracket
    simp only
    rw [scanSet_stop hplain (by decide) (by omega), List.drop_left]
    simp only
    rw [storeIp_some hne h39, scanPort_printNat]
    rfl
  exact ofUrl_bracket hcstr hdotted hbracket

/-! ## which urls come back -/

/-- an address that starts with 64:ff9b and has something else than zeros in front of the IPv4
address -/
def Hidden : Host → Prop
  | .inet _ => False
  | .inet6 x => in6IsAddrNat64 x = true ∧ (x.s6_addr.drop 4).take 8 ≠ List.replicate 8 0

theorem inet6Of_nat64 {x : In6Addr} (h : in6IsAddrNat64 x = true) :
    inet6Of (kWellKnownNat64Prefix ++ (lastV4 x).socket_inet_ntop) = x ↔
      (x.s6_addr.drop 4).take 8 = List.replicate 8 0 := by
  obtain ⟨bytes, hlen⟩ := x
  match bytes, hlen with
  | [b₀, b₁, b₂, b₃, b₄, b₅, b₆, b₇, b₈, b₉, b₁₀, b₁₁, b₁₂, b₁₃, b₁₄, b₁₅], hlen =>
    have hfirst : [b₀, b₁, b₂, b₃] = [0, 100, 255, 155] := beq_iff_eq.mp h
    simp only [List.cons.injEq, and_true] at hfirst
    obtain ⟨rfl, rfl, rfl, rfl⟩ := hfirst
    have hwords : ([100, 65435, 0, 0, 0, 0] ++ Inet6.v4Words ⟨b₁₂, b₁₃, b₁₄, b₁₅⟩).flatMap
        Inet6.wordBytes = [0, 100, 255, 155, 0, 0, 0, 0, 0, 0, 0, 0, b₁₂, b₁₃, b₁₄, b₁₅] := by
      rw [List.flatMap_append, Inet6.v4Words_bytes]
      rfl
    have hread : Inet6.pton (kWellKnownNat64Prefix ++
        InAddr.socket_inet_ntop ⟨b₁₂, b₁₃, b₁₄, b₁₅⟩) =
        some ⟨[0, 100, 255, 155, 0, 0, 0, 0, 0, 0, 0, 0, b₁₂, b₁₃, b₁₄, b₁₅], rfl⟩ := by
      unfold kWellKnownNat64Prefix
      rw [Inet6.pton_nat64]
      unfold Inet6.ofWords
      rw [dif_pos (by rw [hwords]; rfl)]
      simp only [hwords]
    show (Inet6.pton (kWellKnownNat64Prefix ++
      InAddr.socket_inet_ntop ⟨b₁₂, b₁₃, b₁₄, b₁₅⟩)).getD _ = _ ↔ _
    rw [hread, Option.getD_some, Nat64.In6Addr.mk.injEq]
    show _ ↔ [b₄, b₅, b₆, b₇, b₈, b₉, b₁₀, b₁₁] = [0, 0, 0, 0, 0, 0, 0, 0]
    simp only [List.cons.injEq, and_true, true_and]
    constructor
    · rintro ⟨rfl, rfl, rfl, rfl, rfl, rfl, rfl, rfl⟩
      simp
    · rintro ⟨rfl, rfl, rfl, rfl, rfl, rfl, rfl, rfl⟩
      simp

/-- **The urls.**  An address and its port come back, except where the text hides a part of the
address. -/
theorem url_roundtrip (h : Host) (port : UInt16) :
    (ofUrl (init (some (h, port))).url_).map (·.addr_) = some (some (h, port)) ↔ ¬ Hidden h := by
  show (ofUrl (urlText h port)).map _ = _ ↔ _
  cases h with
  | inet x =>
    rw [ofUrl_v4]
    exact iff_of_true rfl id
  | inet6 x =>
    rw [ofUrl_v6]
    show some (some (Host.inet6 (inet6Of (ipText (.inet6 x))), port)) = _ ↔ _
    simp only [Option.some.injEq, Prod.mk.injEq, and_true, Host.inet6.injEq]
    unfold Hidden ipText
    dsimp only
    by_cases h64 : in6IsAddrNat64 x = true
    · simp only [h64, if_true, true_and, not_not]
      exact inet6Of_nat64 h64
    · rw [if_neg h64]
      exact iff_of_true (inet6Of_some (Inet6.pton_ntop x)) fun hh => h64 hh.1

/-! ## which literals are taken for what they are -/

/-- a bare literal -/
def Literal (s : Bytes) : Prop :=
  (∃ x, Dns.socket_inet_pton s = some x) ∨ ∃ x, Inet6.pton s = some x

/-- both constructors give the same family and address, and the scans stay in `ip_s` -/
def Agrees (s : Bytes) : Prop :=
  ∃ r, ofUrl s = some r ∧ r.addr_.map Prod.fst = (ofIp s 0).addr_.map Prod.fst

def StartsDotted (s : Bytes) : Prop := ∃ c, s.head? = some c ∧ isDotted c = true

section
variable {s : Bytes}

theorem agrees_v4 {x : InAddr} (h : Dns.socket_inet_pton s = some x) : Agrees s := by
  obtain ⟨hne, h15, hchars⟩ := Inet6.v4_plain h
  have hdotted : ∀ c ∈ s, isDotted c = true := by
    intro c hc
    unfold isDotted
    rcases hchars c hc with h | rfl
    · simp [h.1, h.2]
    · decide
  have hcstr : cstr s = s :=
    cstr_of_plain fun c hc => (isText_ne (Inet6.isText_of_v4 (hchars c hc))).1
  have hscan : scanDotted s = some (some (s, 0)) := by
    unfold scanDotted
    dsimp only
    rw [scanSet_all hdotted, List.take_of_length_le h15, List.drop_length]
    exact storeIp_some hne (by omega) none
  refine ⟨init (some (.inet x, 0)), ?_, ?_⟩
  · rw [ofUrl_dotted hcstr hscan, inetOf_some h]
  · unfold ofIp
    rw [hcstr, h]

theorem ofUrl_startsDotted (hs : StartsDotted (cstr s)) :
    ∃ x port, ofUrl s = some (init (some (.inet x, port))) := by
  obtain ⟨c, hc, hset⟩ := hs
  have hne : scanSet 15 isDotted (cstr s) ≠ [] := by
    obtain ⟨t, ht⟩ : ∃ t, cstr s = c :: t := by
      cases he : cstr s with
      | nil =>
        rw [he] at hc
        cases hc
      | cons c' t =>
        rw [he] at hc
        cases hc
        exact ⟨t, rfl⟩
    rw [ht]
    unfold scanSet
    rw [List.take_succ_cons, List.takeWhile_cons_of_pos hset]
    nofun
  have hlen : (scanSet 15 isDotted (cstr s)).length ≤ 39 := by
    have h1 := (List.takeWhile_prefix isDotted (l := (cstr s).take 15)).length_le
    have h2 := List.length_take_le 15 (cstr s)
    unfold scanSet
    omega
  unfold ofUrl scanDotted
  dsimp only
  rw [storeIp_some hne hlen, Option.bind_some]
  exact ⟨_, _, rfl⟩

theorem scanDotted_none (hs : ¬ StartsDotted s) : scanDotted s = some none := by
  cases s with
  | nil => rfl
  | cons c t =>
    have hc : isDotted c = false := by
      by_contra h
      exact hs ⟨c, rfl, by simpa using h⟩
    unfold scanDotted
    rw [scanSet_none hc]
    rfl

/-- the scan of the address alone, for a literal that the first one does not take -/
theorem ofUrl_bare (hplain : Plain s) (hne : s ≠ []) (hs : ¬ StartsDotted s) :
    ofUrl s = if s.length ≤ 39 then some (init (some (.inet6 (inet6Of s), 0))) else none := by
  obtain ⟨c, t, rfl⟩ := List.exists_cons_of_ne_nil hne
  have hcstr : cstr (c :: t) = c :: t := cstr_of_plain fun c hc => (isText_ne (hplain c hc)).1
  have hbracket : scanBracket (c :: t) = some none := by
    unfold scanBracket
    split
    · rename_i he
      cases he
      exact absurd rfl (isText_ne (hplain 91 List.mem_cons_self)).2
    · rfl
  have hbare : scanBare (c :: t) =
      if (c :: t).length ≤ 39 then some (some (c :: t, 0)) else none := by
    unfold scanBare
    rw [scanSet_all hplain]
    by_cases hlen : (c :: t).length ≤ 39
    · rw [if_pos hlen, List.take_of_length_le (by omega)]
      exact storeIp_some hne hlen none
    · have h40 : ((c :: t).take 40).length = 40 := by
        rw [List.length_take]
        omega
      have hne' : (c :: t).take 40 ≠ [] := fun h => by
        rw [h] at h40
        cases h40
      unfold storeIp
      rw [if_neg hne', if_neg (by omega), if_neg hlen]
  unfold ofUrl
  dsimp only
  rw [hcstr, scanDotted_none hs, Option.bind_some]
  dsimp only
  rw [hbracket, Option.bind_some]
  dsimp only
  rw [hbare]
  split <;> rfl

/-- **The literals.**  An IPv4 one is taken for what it is, and an IPv6 one if it starts with neither
a digit nor a dot and has 39 characters at most. -/
theorem agrees_iff (hs : Literal s) : Agrees s ↔
    (∃ x, Dns.socket_inet_pton s = some x) ∨ ¬ StartsDotted s ∧ s.length ≤ 39 := by
  by_cases h4 : ∃ x, Dns.socket_inet_pton s = some x
  · obtain ⟨x, hx⟩ := h4
    exact iff_of_true (agrees_v4 hx) (Or.inl ⟨x, hx⟩)
  · obtain ⟨x, hx⟩ := hs.resolve_left h4
    have hplain := Inet6.pton_plain hx
    have hne := ne_nil_of_pton hx
    have hcstr : cstr s = s := cstr_of_plain fun c hc => (isText_ne (hplain c hc)).1
    have hnone : Dns.socket_inet_pton s = none :=
      Option.eq_none_iff_forall_ne_some.mpr fun y hy => h4 ⟨y, hy⟩
    have hip : ofIp s 0 = init (some (.inet6 x, 0)) := by
      unfold ofIp
      rw [hcstr, hnone]
      dsimp only
      rw [hx]
    unfold Agrees
    rw [hip, or_iff_right h4]
    by_cases hd : StartsDotted s
    · obtain ⟨y, port, hy⟩ := ofUrl_startsDotted (s := s) (by rwa [hcstr])
      refine iff_of_false ?_ fun h => h.1 hd
      rintro ⟨r, hr, he⟩
      rw [hy] at hr
      cases hr
      cases he
    · rw [ofUrl_bare hplain hne hd, and_iff_right hd]
      by_cases hlen : s.length ≤ 39
      · rw [if_pos hlen]
        refine iff_of_true ⟨_, rfl, ?_⟩ hlen
        rw [inet6Of_some hx]
      · rw [if_neg hlen]
        exact iff_of_false (fun ⟨r, hr, _⟩ => (nomatch hr)) hlen

/-! ## which texts are stored in `ip_s` -/

/-- the characters of an address that a text begins with, behind its bracket if it has one -/
def addressChars : Bytes → Bytes
  | 91 :: t => t.takeWhile isText
  | s => s.takeWhile isText

theorem storeIp_ne_none {ip : Bytes} {port : Option UInt16} :
    storeIp ip port ≠ none ↔ ip.length ≤ 39 := by
  unfold storeIp
  by_cases hne : ip = []
  · rw [if_pos hne, hne]
    exact iff_of_true nofun (Nat.zero_le 39)
  · rw [if_neg hne]
    by_cases hlen : ip.length + 1 ≤ 40
    · rw [if_pos hlen]
      exact iff_of_true nofun (by omega)
    · rw [if_neg hlen]
      exact iff_of_false (fun h => h rfl) (by omega)

theorem scanSet_length (s : Bytes) :
    (scanSet 40 isText s).length ≤ 39 ↔ (s.takeWhile isText).length ≤ 39 := by
  unfold scanSet
  rw [← List.take_takeWhile, List.length_take]
  omega

theorem bind_ne_none {α β : Type} {r : Option α} {f : α → Option β} (hf : ∀ x, f x ≠ none) :
    r.bind f ≠ none ↔ r ≠ none := by
  cases r with
  | none => exact iff_of_false (fun h => h rfl) (fun h => h rfl)
  | some x => exact iff_of_true (hf x) nofun

/-- **The scans** keep to `ip_s` when the first one takes the text, or when it begins with at most 39
characters of an address. -/
theorem ofUrl_inside (u : Bytes) :
    ofUrl u ≠ none ↔ StartsDotted (cstr u) ∨ (addressChars (cstr u)).length ≤ 39 := by
  by_cases hd : StartsDotted (cstr u)
  · obtain ⟨x, port, hx⟩ := ofUrl_startsDotted hd
    rw [hx]
    exact iff_of_true nofun (Or.inl hd)
  · rw [or_iff_right hd]
    unfold ofUrl
    dsimp only
    rw [scanDotted_none hd, Option.bind_some]
    dsimp only
    generalize cstr u = s at hd
    unfold scanBracket addressChars
    split
    · rename_i t
      -- the scan of the address alone stops at the bracket
      have hbare : scanBare (91 :: t) = some none := by
        unfold scanBare
        rw [scanSet_none (by decide)]
        rfl
      rw [hbare]
      refine (bind_ne_none fun r => ?_).trans (storeIp_ne_none.trans (scanSet_length t))
      cases r with
      | none => nofun
      | some x => nofun
    · rw [Option.bind_some]
      refine (bind_ne_none fun r => ?_).trans (storeIp_ne_none.trans (scanSet_length s))
      cases r with
      | none => nofun
      | some x => nofun

end

/-- **Address text**: which addresses come back from their url, for which literals the two
constructors agree, and for which texts the scans write inside of `ip_s` only. -/
theorem address_text (h : Host) (port : UInt16) (s u : Bytes) :
    ((ofUrl (init (some (h, port))).url_).map (·.addr_) = some (some (h, port)) ↔ ¬ Hidden h) ∧
    (Literal s → (Agrees s ↔
      (∃ x, Dns.socket_inet_pton s = some x) ∨ ¬ StartsDotted s ∧ s.length ≤ 39)) ∧
    (ofUrl u ≠ none ↔ StartsDotted (cstr u) ∨ (addressChars (cstr u)).length ≤ 39) :=
  ⟨url_roundtrip h port, fun hs => agrees_iff hs, ofUrl_inside u⟩

theorem loopback_literal : Literal (ascii "::1") :=
  Or.inr ⟨⟨[0, 0, 0, 0, 0, 0, 0, 0, 0, 0, 0, 0, 0, 0, 0, 1], rfl⟩, by decide +kernel⟩

theorem address_text_loopback : Agrees (ascii "::1") :=
  ((address_text (.inet ⟨127, 0, 0, 1⟩) 80 (ascii "::1") []).2.1 loopback_literal).mpr
    (Or.inr ⟨by rintro ⟨c, hc, hd⟩; cases hc; exact absurd hd (by decide), by decide⟩)

/-- 64:ff9b:1::1.2.3.4 loses its 1, a literal that starts with a digit becomes an IPv4 address, and one
of 45 characters is written behind `ip_s`, as 40 digits in brackets are -/
theorem not_address_text :
    (ofUrl (init (some (.inet6 ⟨[0, 100, 255, 155, 0, 1, 0, 0, 0, 0, 0, 0, 1, 2, 3, 4], rfl⟩,
      80))).url_).map (·.addr_) ≠
        some (some (.inet6 ⟨[0, 100, 255, 155, 0, 1, 0, 0, 0, 0, 0, 0, 1, 2, 3, 4], rfl⟩, 80)) ∧
    (ofUrl (ascii "2001:db8::1")).map (·.addr_) = some (some (.inet ⟨0, 0, 0, 0⟩, 0)) ∧
    (ofIp (ascii "2001:db8::1") 0).addr_ =
      some (.inet6 ⟨[32, 1, 13, 184, 0, 0, 0, 0, 0, 0, 0, 0, 0, 0, 0, 1], rfl⟩, 0) ∧
    ofUrl (ascii "abcd:abcd:abcd:abcd:abcd:abcd:255.255.255.255") = none ∧
    ofUrl (91 :: List.replicate 40 97) = none := by
  refine ⟨?_, ?_, ?_, ?_, ?_⟩
  all_goals decide +kernel

end AddressText
