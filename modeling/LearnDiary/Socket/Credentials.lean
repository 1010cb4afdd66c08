import LearnDiary.Crypt.Decode

/-!
# The credentials for an HTTP proxy (comm/socket/complexconnect.cc)

`dstbuf` is the memory from its address on, with `heap` behind the bytes that are allocated.
`EncodeBase64` gets the length as an `int`, and `auth_info` keeps 1023 bytes of the text.

* `decodeBase64_le`      the size that `DecodeBase64` returns is bounded by the text;
* `proxyAuthorization_eq`  the value, for all lengths that `EncodeBase64` can take;
* `credentials_iff`      which credentials the proxy can read.
-/

namespace Credentials
open Base64

/-! ## the code -/

/-- `(int) n` -/
def toInt (n : Nat) : Int := (n : Int).bmod (2 ^ 32)

/-- `EncodeBase64`, with the `int` that it gets: division truncates, and the write of the NUL is in
front of the target when `nb_block` is negative -/
def encode (sSrc : Bytes) (sTarget : Memory) (nSize : Int) : Option (Nat × Memory) :=
  if nSize = 0 then some (0, sTarget)
  else
    let nb_block := if nSize.tdiv 3 * 3 ≠ nSize then nSize.tdiv 3 + 1 else nSize.tdiv 3
    if nb_block < 0 then none
    else do
      let target_size ← int (nb_block.toNat * 4)
      let s ← encodeBlocks sSrc nSize.toNat nb_block.toNat
        ⟨0, 0, Function.update sTarget target_size 0⟩
      pure (target_size, s.sTarget)

/-- `modp_b64_encode_len(A)` -/
def encodeLen (n : Nat) : Nat := (n + 2) / 3 * 4 + 1

structure Sent where
  /-- the memory from `dstbuf` on -/
  dstbuf : Memory
  /-- the value of the field -/
  auth_info : Bytes

def accountInfo (username_ password_ : Bytes) : Bytes := username_ ++ ascii ":" ++ password_

/-- the part of `_OnRequestSend` for a user and a password that are both there -/
def proxyAuthorization (username_ password_ : Bytes) (heap : Memory) : Option Sent := do
  let account_info := accountInfo username_ password_
  let dstlen := encodeLen account_info.length
  -- `memset(dstbuf, 0, dstlen)`
  let dstbuf : Memory := fun i => if i < dstlen then 0 else heap i
  let (retsize, dstbuf) ← encode account_info dstbuf (toInt account_info.length)
  let dstbuf := Function.update dstbuf retsize 0
  let text := cstr ((List.range dstlen).map dstbuf)
  pure { dstbuf := dstbuf, auth_info := (ascii "Basic " ++ text).take 1023 }

/-! ## the value -/

theorem encode_natCast (sSrc : Bytes) (m : Memory) (n : Nat) :
    encode sSrc m n = encodeBase64 sSrc m n := by
  have hdiv : (n : Int).tdiv 3 = ((n / 3 : Nat) : Int) := rfl
  have hblock : (if (n : Int).tdiv 3 * 3 ≠ n then (n : Int).tdiv 3 + 1 else (n : Int).tdiv 3) =
      ((if n / 3 * 3 ≠ n then n / 3 + 1 else n / 3 : Nat) : Int) := by
    rw [hdiv]
    split <;> split <;> omega
  unfold encode encodeBase64
  by_cases h0 : n = 0
  · rw [if_pos h0, if_pos (by exact_mod_cast h0)]
  · rw [if_neg h0, if_neg (by exact_mod_cast h0), hblock]
    simp only [Int.toNat_natCast]
    rw [if_neg (by omega)]

theorem rfc4648_notNul (x : Bytes) : ∀ c ∈ rfc4648 x, notNul c = true := by
  have hdigit : ∀ n, notNul (digit n) = true := by
    have h : ∀ n < 64, notNul (digit n) = true := by
      decide +kernel
    intro n
    have hmod : digit n = digit (n % 64) := by
      unfold digit
      rw [Nat.mod_mod]
    rw [hmod]
    exact h _ (Nat.mod_lt n (by decide))
  have hpad : notNul 61 = true := by decide
  induction x using rfc4648.induct with
  | case1 => exact List.forall_mem_nil _
  | case2 x =>
    simp only [rfc4648, List.forall_mem_cons, hdigit, hpad, true_and]
    exact List.forall_mem_nil _
  | case3 x y =>
    simp only [rfc4648, List.forall_mem_cons, hdigit, hpad, true_and]
    exact List.forall_mem_nil _
  | case4 x y z l ih =>
    simp only [rfc4648, List.forall_mem_cons, hdigit, true_and]
    exact ih

theorem cstr_memory {m : Memory} {l : Bytes} (hl : ∀ c ∈ l, notNul c = true)
    (hm : ∀ i c, l[i]? = some c → m i = c) (hnul : m l.length = 0) :
    cstr ((List.range (l.length + 1)).map m) = l := by
  have hmap : (List.range l.length).map m = l := by
    apply List.ext_getElem
    · rw [List.length_map, List.length_range]
    · intro i h1 h2
      rw [List.getElem_map, List.getElem_range]
      exact hm i _ (List.getElem?_eq_getElem h2)
  unfold cstr Find.upTo
  rw [List.range_succ, List.map_append, hmap, List.takeWhile_append_of_pos hl, List.map_singleton,
    hnul, List.takeWhile_cons_of_neg (by decide), List.append_nil]

/-- **The value**, for the lengths that `EncodeBase64` can take: `dstbuf` has room for the text and
its NUL, and `auth_info` cuts it off. -/
theorem proxyAuthorization_eq {username_ password_ : Bytes} (heap : Memory)
    (hsize : (accountInfo username_ password_).length < 2 ^ 29) :
    ∃ sent, proxyAuthorization username_ password_ heap = some sent ∧
      (∀ i, encodeLen (accountInfo username_ password_).length ≤ i → sent.dstbuf i = heap i) ∧
      sent.auth_info = (ascii "Basic " ++ rfc4648 (accountInfo username_ password_)).take 1023 := by
  have hne : accountInfo username_ password_ ≠ [] := by
    unfold accountInfo
    simp [ascii]
  generalize hx : accountInfo username_ password_ = x at hsize hne
  have hlen := length_rfc4648 x
  have hdst : encodeLen x.length = (rfc4648 x).length + 1 := by
    unfold encodeLen
    omega
  have hint : toInt x.length = (x.length : Int) := Int.bmod_eq_of_le (by omega) (by omega)
  unfold proxyAuthorization
  dsimp only
  rw [hx, hint, encode_natCast, encodeBase64_eq hne hsize, Option.bind_eq_bind, Option.bind_some]
  refine ⟨_, rfl, fun i hi => ?_, ?_⟩
  · show Function.update (store _ 0 (rfc4648 x)) _ 0 i = heap i
    rw [Function.update_of_ne (by omega), store_above (by omega),
      Function.update_of_ne (by omega), if_neg (by omega)]
  · have htext : ∀ m : Memory, cstr ((List.range (encodeLen x.length)).map
        (Function.update (store m 0 (rfc4648 x)) (4 * ((x.length + 2) / 3)) 0)) = rfc4648 x := by
      intro m
      rw [hdst]
      refine cstr_memory (rfc4648_notNul x) (fun i c hc => ?_) ?_
      · have hi := (List.getElem?_eq_some_iff.mp hc).1
        have hget := store_get (m := m) (q := 0) hc
        rw [Nat.zero_add] at hget
        rw [Function.update_of_ne (by omega), hget]
      · rw [hlen]
        exact Function.update_self _ _ _
    show (ascii "Basic " ++ _).take 1023 = _
    rw [htext]

theorem auth_info_length {username_ password_ : Bytes} {heap : Memory} {sent : Sent}
    (h : proxyAuthorization username_ password_ heap = some sent) :
    sent.auth_info.length ≤ 1023 := by
  unfold proxyAuthorization at h
  dsimp only at h
  rw [Option.bind_eq_bind, Option.bind_eq_some_iff] at h
  obtain ⟨e, -, he⟩ := h
  rw [← Option.some.inj he]
  exact List.length_take_le _ _

/-- what goes out is the field of the request -/
theorem auth_info_eq {p : Proxied} {heap : Memory} {sent : Sent}
    (hsize : (accountInfo p.username_ p.password_).length < 2 ^ 29)
    (h : proxyAuthorization p.username_ p.password_ heap = some sent) :
    sent.auth_info = CheckFsm.auth_info p := by
  obtain ⟨sent', h', -, hvalue⟩ := proxyAuthorization_eq heap hsize
  rw [h] at h'
  cases h'
  unfold CheckFsm.auth_info
  rw [hvalue, proxy_encodeBase64]
  rfl

/-! ## the proxy's side -/

/-- nothing is written outside of `dstbuf`, and `DecodeBase64` gives the account back -/
structure Readable (username_ password_ : Bytes) (heap : Memory) (sent : Sent) : Prop where
  same : ∀ i, encodeLen (accountInfo username_ password_).length ≤ i → sent.dstbuf i = heap i
  back : ∃ text, sent.auth_info = ascii "Basic " ++ text ∧
    ∀ m, ∃ m', decodeBase64 text m text.length =
        some (((accountInfo username_ password_).length : Int), m') ∧
      ∀ i c, (accountInfo username_ password_)[i]? = some c → m' i = c

/-- 1017 characters behind `Basic ` are 254 blocks -/
theorem readable_length {username_ password_ : Bytes} {heap : Memory} {sent : Sent}
    (h : proxyAuthorization username_ password_ heap = some sent)
    (hr : Readable username_ password_ heap sent) :
    (accountInfo username_ password_).length ≤ 762 := by
  obtain ⟨text, htext, hback⟩ := hr.back
  obtain ⟨m', hm', -⟩ := hback fun _ => 0
  have hcut := auth_info_length h
  have hbasic : (ascii "Basic ").length = 6 := by decide
  rw [htext, List.length_append, hbasic] at hcut
  have := decodeBase64_le hm'
  omega

theorem length_accountInfo (username_ password_ : Bytes) :
    (accountInfo username_ password_).length = username_.length + 1 + password_.length := by
  unfold accountInfo
  rw [List.length_append, List.length_append]
  rfl

/-- **The credentials.**  The proxy can read those with 762 bytes at most, the colon included. -/
theorem credentials_iff (username_ password_ : Bytes) :
    (∀ heap, ∃ sent, proxyAuthorization username_ password_ heap = some sent ∧
      Readable username_ password_ heap sent) ↔
    username_.length + 1 + password_.length ≤ 762 := by
  rw [← length_accountInfo]
  constructor
  · intro h
    obtain ⟨sent, hsent, hr⟩ := h fun _ => 0
    exact readable_length hsent hr
  · intro hsize heap
    obtain ⟨sent, hsent, hsame, hvalue⟩ :=
      @proxyAuthorization_eq username_ password_ heap (by omega)
    refine ⟨sent, hsent, hsame, rfc4648 (accountInfo username_ password_), ?_, fun m => ?_⟩
    · have hlen := length_rfc4648 (accountInfo username_ password_)
      have hbasic : (ascii "Basic ").length = 6 := by decide
      rw [hvalue, List.take_of_length_le (by rw [List.length_append, hbasic]; omega)]
    · have hne : accountInfo username_ password_ ≠ [] := by
        unfold accountInfo
        simp [ascii]
      refine ⟨_, decodeBase64_eq hne (by omega) m, fun i c hc => ?_⟩
      have hin : (accountInfo username_ password_ ++
          List.replicate (padding (accountInfo username_ password_).length) 0)[i]? = some c := by
        rw [List.getElem?_append_left (List.getElem?_eq_some_iff.mp hc).1]
        exact hc
      have hget := store_get (m := Function.update m
        (3 * (((accountInfo username_ password_).length + 2) / 3)) 0) (q := 0) hin
      rwa [Nat.zero_add] at hget

/-- a password of 761 characters is cut off -/
theorem not_readable : ¬ ∀ heap, ∃ sent,
    proxyAuthorization [117] (List.replicate 761 112) heap = some sent ∧
      Readable [117] (List.replicate 761 112) heap sent := by
  intro h
  obtain ⟨sent, hsent, hr⟩ := h fun _ => 0
  have hle := readable_length hsent hr
  rw [length_accountInfo, List.length_replicate] at hle
  exact absurd hle (by decide)

end Credentials
