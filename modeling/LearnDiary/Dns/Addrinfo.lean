import LearnDiary.Base.Bytes

/-!
# What `__GetIP` keeps of a list of `getaddrinfo` (comm/dns/dns.cc, socket/socket_address.cc)

The loop skips what is no IPv4 address, 0.0.0.0 and 255.255.255.255, and then an address whose text
is not `valid`.  Its `ip` points into a `socket_address` that is destroyed before `ip` is read: the
model reads the text that was written there.

* `pton_ntop`       the text of an address is read back, so the last test skips none;
* `mem_pushed`      what is kept: the texts of the usable addresses;
* `pushed_ne_nil`   something is kept exactly where there is a usable address.
-/

namespace Dns

/-! ## addresses and their texts -/

/-- `struct in_addr`: the bytes of `s_addr`, in network order -/
structure InAddr where
  a : UInt8
  b : UInt8
  c : UInt8
  d : UInt8
deriving DecidableEq

def INADDR_ANY : InAddr := ⟨0, 0, 0, 0⟩

def INADDR_NONE : InAddr := ⟨255, 255, 255, 255⟩

namespace InAddr

def octets (x : InAddr) : List UInt8 := [x.a, x.b, x.c, x.d]

/-- `socket_inet_ntop` of an `AF_INET` address -/
def socket_inet_ntop (x : InAddr) : Bytes := [46].intercalate (x.octets.map fun n => printNat 10 n.toNat)

end InAddr

/-- a number of a dotted address: digits, no zero before another digit, at most 255 -/
def octet (t : Bytes) : Option UInt8 :=
  let val := digits 10 t 0
  if t ≠ [] ∧ t.all (fun c => 48 ≤ c && c ≤ 57) ∧ (t.head? = some 48 → t.length = 1) ∧ val ≤ 255 then
    some val.toUInt8
  else none

/-- `socket_inet_pton(AF_INET, _ip, _)` -/
def socket_inet_pton (_ip : Bytes) : Option InAddr :=
  match (_ip.splitOn 46).map octet with
  | [some a, some b, some c, some d] => some ⟨a, b, c, d⟩
  | _ => none

theorem octets_read : (List.range 256).all (fun n => octet (printNat 10 n) == some n.toUInt8) = true := by
  decide +kernel

theorem octet_printNat (n : UInt8) : octet (printNat 10 n.toNat) = some n := by
  have hn := List.all_eq_true.mp octets_read n.toNat (List.mem_range.mpr n.toNat_lt)
  rw [beq_iff_eq.mp hn]
  exact congrArg some UInt8.ofNat_toNat

theorem pton_ntop (x : InAddr) : socket_inet_pton x.socket_inet_ntop = some x := by
  have hdot : ∀ t ∈ x.octets.map (fun n => printNat 10 n.toNat), (46 : UInt8) ∉ t := by
    intro t ht hmem
    obtain ⟨n, -, rfl⟩ := List.mem_map.mp ht
    obtain ⟨d, hd, hc⟩ := printNat_mem (by decide) hmem
    revert hc
    interval_cases d <;> decide
  unfold socket_inet_pton InAddr.socket_inet_ntop
  rw [List.splitOn_intercalate _ hdot (List.cons_ne_nil _ _), List.map_map]
  have hback : x.octets.map (octet ∘ fun n => printNat 10 n.toNat) = x.octets.map some :=
    List.map_congr_left fun n _ => octet_printNat n
  rw [hback]
  rfl

/-! ## the list of `getaddrinfo` -/

/-- an element of the list of `getaddrinfo`: its address, or one of another `ai_family` -/
inductive AddrInfo where
  | inet (sin_addr : InAddr)
  | other
deriving DecidableEq

/-- neither 0.0.0.0 nor 255.255.255.255 -/
def InAddr.Usable (x : InAddr) : Prop := x ≠ INADDR_ANY ∧ x ≠ INADDR_NONE

instance (x : InAddr) : Decidable x.Usable := inferInstanceAs (Decidable (_ ∧ _))

def HasUsable (result : List AddrInfo) : Prop := ∃ x : InAddr, x.Usable ∧ .inet x ∈ result

section
variable (inet6 : Bytes → Bool)

/-- `socket_address(_ip, _).valid()`; `inet6` says which texts `socket_inet_pton(AF_INET6, ..)` takes -/
def valid (_ip : Bytes) : Bool := (socket_inet_pton _ip).isSome || inet6 _ip

/-- what the turn of the loop at `single` adds to `iter->result` -/
def pushOf (single : AddrInfo) : Option Bytes :=
  match single with
  | .other => none
  | .inet sin_addr =>
    if sin_addr = INADDR_ANY ∨ sin_addr = INADDR_NONE then none
    else
      let ip := sin_addr.socket_inet_ntop
      if valid inet6 ip then some ip else none

/-- what the loop of `__GetIP` adds to `iter->result` -/
def pushed (result : List AddrInfo) : List Bytes := result.filterMap (pushOf inet6)

variable {inet6} {result : List AddrInfo} {ip : Bytes}

theorem valid_ntop (x : InAddr) : valid inet6 x.socket_inet_ntop = true := by
  unfold valid
  rw [pton_ntop]
  rfl

theorem pushOf_inet (x : InAddr) :
    pushOf inet6 (.inet x) = if x.Usable then some x.socket_inet_ntop else none := by
  unfold pushOf
  dsimp only
  rw [if_pos (valid_ntop x)]
  by_cases h : x = INADDR_ANY ∨ x = INADDR_NONE
  · have hu : ¬ x.Usable := fun hu => h.elim hu.1 hu.2
    rw [if_pos h, if_neg hu]
  · have hu : x.Usable := not_or.mp h
    rw [if_neg h, if_pos hu]

/-- no usable address is lost at the check of its text -/
theorem mem_pushed : ip ∈ pushed inet6 result ↔
    ∃ x : InAddr, x.Usable ∧ .inet x ∈ result ∧ ip = x.socket_inet_ntop := by
  unfold pushed
  rw [List.mem_filterMap]
  constructor
  · rintro ⟨single, hs, hp⟩
    cases single with
    | other => cases hp
    | inet x =>
      rw [pushOf_inet] at hp
      split at hp
      · rename_i hu
        cases hp
        exact ⟨x, hu, hs, rfl⟩
      · cases hp
  · rintro ⟨x, hu, hx, rfl⟩
    refine ⟨_, hx, ?_⟩
    rw [pushOf_inet, if_pos hu]

theorem pushed_ne_nil : pushed inet6 result ≠ [] ↔ HasUsable result := by
  constructor
  · intro h
    obtain ⟨ip, hip⟩ := List.exists_mem_of_ne_nil _ h
    obtain ⟨x, hu, hx, -⟩ := mem_pushed.mp hip
    exact ⟨x, hu, hx⟩
  · rintro ⟨x, hu, hx⟩
    exact List.ne_nil_of_mem (mem_pushed.mpr ⟨x, hu, hx, rfl⟩)

end

end Dns
