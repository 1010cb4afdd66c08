import LearnDiary.Base.Sizes
import LearnDiary.Packer.Sanity

/-!
# The length-prefixed packs (comm/basepacker.cc)

`SimplePack`, `SimpleUnpack` and their two instances.  The length on the wire counts itself and is
as wide as the type argument; the conversion of the packer does not check it.

* `simpleUnpack_of_lt`    what the decoder does while the length fits;
* `simpleUnpack_take`     and what it does with a proper prefix;
* `SimpleRoundTrip.fits`  the length fits whenever a block comes back whole;
* `unpacks_iff`           when a raw buffer of any content is taken apart without wrapping around.
-/

namespace Pack

/-- the type argument of the templates -/
inductive LengthType where
  | uint16_t
  | unsigned_int
deriving DecidableEq

def LengthType.sizeof : LengthType → Nat
  | .uint16_t => 2
  | .unsigned_int => 4

/-- a half word as `htons` leaves it in memory -/
def htons (n : UInt16) : Bytes := [(n.toNat / 2 ^ 8).toUInt8, n.toNat.toUInt8]

/-- `ntohs` of the half word at the front of the memory -/
def ntohs (m : Bytes) : UInt16 :=
  ((m.take 2).foldl (fun (acc : Nat) (c : UInt8) => acc * 2 ^ 8 + c.toNat) 0).toUInt16

/-- the memory of `hton((T)n)` -/
def LengthType.hton : LengthType → Nat → Bytes
  | .uint16_t, n => htons n.toUInt16
  | .unsigned_int, n => htonl n.toUInt32

/-- `ntoh(*(T*)m)` -/
def LengthType.ntoh : LengthType → Bytes → Nat
  | .uint16_t, m => (ntohs m).toNat
  | .unsigned_int, m => (ntohl m).toNat

/-- the number of values of the type -/
def LengthType.limit (T : LengthType) : Nat := 2 ^ (8 * T.sizeof)

/-- `(T)(_datalen + sizeof(T))` -/
def simplePackLength (T : LengthType) (_datalen : Nat) : Nat := (_datalen + T.sizeof) % T.limit

def simplePack (T : LengthType) (_data : Bytes) (_outbuf : AutoBuffer) : AutoBuffer :=
  (_outbuf.write (T.hton (simplePackLength T _data.length))).write _data

def SIMPLE_CONTINUE : Int := -2
def SIMPLE_CONTINUE_DATA : Int := -1
def SIMPLE_OK : Int := 0

/-- code, `_packlen` and `_data`.  There is no outcome where `_packlen - sizeof(T)` wraps around:
the copy then leaves the memory. -/
def simpleUnpack (T : LengthType) (_rawbuf : Bytes) (_packlen : Nat) (_data : AutoBuffer) :
    Option (Int × Nat × AutoBuffer) :=
  if T.sizeof > _rawbuf.length then some (SIMPLE_CONTINUE, _packlen, _data)
  else
    let _packlen := T.ntoh _rawbuf
    if _packlen > _rawbuf.length then some (SIMPLE_CONTINUE_DATA, _packlen, _data)
    else if _packlen < T.sizeof then none
    else some (SIMPLE_OK, _packlen,
      _data.write ((_rawbuf.drop T.sizeof).take (_packlen - T.sizeof)))

/-- nothing is copied here, so a length that wraps around is attached as it is -/
def simpleUnpackPtr (T : LengthType) (_rawbuf : Bytes) (_packlen : Nat) (_data : PtrBuffer) :
    Int × Nat × PtrBuffer :=
  if T.sizeof > _rawbuf.length then (SIMPLE_CONTINUE, _packlen, _data)
  else
    let _packlen := T.ntoh _rawbuf
    if _packlen > _rawbuf.length then (SIMPLE_CONTINUE_DATA, _packlen, _data)
    else (SIMPLE_OK, _packlen, _data.attach T.sizeof (subSize _packlen T.sizeof))

def simpleShortPackLength (_datalen : Nat) : Nat := simplePackLength .uint16_t _datalen
def simpleShortPack (_data : Bytes) (_outbuf : AutoBuffer) : AutoBuffer :=
  simplePack .uint16_t _data _outbuf
def simpleShortUnpack := simpleUnpack .uint16_t
def simpleShortUnpackPtr := simpleUnpackPtr .uint16_t
def simpleIntPackLength (_datalen : Nat) : Nat := simplePackLength .unsigned_int _datalen
def simpleIntPack (_data : Bytes) (_outbuf : AutoBuffer) : AutoBuffer :=
  simplePack .unsigned_int _data _outbuf
def simpleIntUnpack := simpleUnpack .unsigned_int
def simpleIntUnpackPtr := simpleUnpackPtr .unsigned_int

/-! ## the length prefix -/

theorem hton_length (T : LengthType) (n : Nat) : (T.hton n).length = T.sizeof := by
  cases T <;> rfl

theorem toUInt16_toNat (n : Nat) : n.toUInt16.toNat = n % 2 ^ 16 := rfl

theorem ntohs_htons (n : UInt16) (t : Bytes) : ntohs (htons n ++ t) = n := by
  have hn := n.toNat_lt
  apply UInt16.toNat_inj.mp
  show ((0 * 2 ^ 8 + (n.toNat / 2 ^ 8).toUInt8.toNat) * 2 ^ 8
    + n.toNat.toUInt8.toNat).toUInt16.toNat = n.toNat
  rw [toUInt16_toNat, toUInt8_toNat, toUInt8_toNat]
  omega

theorem ntoh_hton (T : LengthType) (n : Nat) (t : Bytes) : T.ntoh (T.hton n ++ t) = n % T.limit := by
  cases T with
  | uint16_t =>
    show (ntohs (htons n.toUInt16 ++ t)).toNat = _
    rw [ntohs_htons]
    rfl
  | unsigned_int =>
    show (ntohl (htonl n.toUInt32 ++ t)).toNat = _
    rw [ntohl_htonl]
    rfl

theorem simplePackLength_lt (T : LengthType) (n : Nat) : simplePackLength T n < T.limit :=
  Nat.mod_lt _ (Nat.two_pow_pos _)

/-- the length on the wire is the number of bytes packed if and only if the type can hold it -/
theorem simplePackLength_eq_iff (T : LengthType) (n : Nat) :
    simplePackLength T n = n + T.sizeof ↔ n + T.sizeof < T.limit := by
  constructor
  · intro h
    rw [← h]
    exact simplePackLength_lt T n
  · exact fun h => Nat.mod_eq_of_lt h

theorem limit_le (T : LengthType) : T.limit ≤ 2 ^ 32 := by
  cases T <;> decide

/-! ## a packed block -/

def simpleFrame (T : LengthType) (_data : Bytes) : Bytes :=
  T.hton (simplePackLength T _data.length) ++ _data

section
variable (T : LengthType) (data : Bytes)

theorem simpleFrame_length : (simpleFrame T data).length = T.sizeof + data.length := by
  unfold simpleFrame
  rw [List.length_append, hton_length]

theorem simplePack_written (b : AutoBuffer) : written b (simplePack T data b) = simpleFrame T data := by
  have h := written_write b (simpleFrame T data)
  have hdata : (simplePack T data b).data = (b.write (simpleFrame T data)).data :=
    AutoBuffer.write_write_data _ _ _
  have hpos : (simplePack T data b).pos_ = (b.write (simpleFrame T data)).pos_ := by
    show b.pos_ + _ + _ = b.pos_ + (simpleFrame T data).length
    unfold simpleFrame
    rw [List.length_append, Nat.add_assoc]
  unfold written at h ⊢
  rw [hdata, hpos]
  exact h

theorem ntoh_simpleFrame (rest : Bytes) :
    T.ntoh (simpleFrame T data ++ rest) = simplePackLength T data.length := by
  unfold simpleFrame
  rw [List.append_assoc, ntoh_hton]
  exact Nat.mod_eq_of_lt (simplePackLength_lt T _)

theorem ntoh_simpleFrame_take {k : Nat} (hk : T.sizeof ≤ k) :
    T.ntoh ((simpleFrame T data).take k) = simplePackLength T data.length := by
  have e : (simpleFrame T data).take k =
      T.hton (simplePackLength T data.length) ++ data.take (k - T.sizeof) := by
    unfold simpleFrame
    rw [List.take_append, hton_length, List.take_of_length_le (by rw [hton_length]; exact hk)]
  rw [e, ntoh_hton]
  exact Nat.mod_eq_of_lt (simplePackLength_lt T _)

theorem simpleFrame_drop (rest : Bytes) :
    (simpleFrame T data ++ rest).drop T.sizeof = data ++ rest := by
  unfold simpleFrame
  rw [List.append_assoc]
  exact List.drop_left' (hton_length T _)

/-! ## the decoders on a packed block -/

def PtrBuffer.view (m : Bytes) (b : PtrBuffer) : Bytes :=
  match b.parray_ with
  | none => []
  | some p => (m.drop p).take b.length_

def isSimpleContinue (code : Int) : Prop := code = SIMPLE_CONTINUE ∨ code = SIMPLE_CONTINUE_DATA

theorem simpleUnpack_of_lt (h : data.length + T.sizeof < T.limit) (rest : Bytes) (packlen : Nat)
    (out : AutoBuffer) (p : PtrBuffer) :
    simpleUnpack T (simpleFrame T data ++ rest) packlen out =
        some (SIMPLE_OK, (simpleFrame T data).length, out.write data) ∧
      simpleUnpackPtr T (simpleFrame T data ++ rest) packlen p =
        (SIMPLE_OK, (simpleFrame T data).length, p.attach T.sizeof data.length) := by
  have hf := simpleFrame_length T data
  have hl : (simpleFrame T data ++ rest).length = T.sizeof + data.length + rest.length := by
    rw [List.length_append, hf]
  have hp := (simplePackLength_eq_iff T data.length).mpr h
  have ht : (data ++ rest).take (data.length + T.sizeof - T.sizeof) = data :=
    List.take_left' (by omega)
  have hs : subSize (data.length + T.sizeof) T.sizeof = data.length := by
    have h1 := limit_le T
    unfold subSize
    omega
  constructor
  · unfold simpleUnpack
    simp only [ntoh_simpleFrame, simpleFrame_drop, hp, hl, ht]
    rw [if_neg (by omega), if_neg (by omega), if_neg (by omega), hf, Nat.add_comm]
  · unfold simpleUnpackPtr
    simp only [ntoh_simpleFrame, hp, hl, hs]
    rw [if_neg (by omega), if_neg (by omega), hf, Nat.add_comm]

theorem simpleUnpack_take (h : data.length + T.sizeof < T.limit) (k : Nat)
    (hk : k < (simpleFrame T data).length) (packlen : Nat) (out : AutoBuffer) (p : PtrBuffer) :
    (∃ code n, isSimpleContinue code ∧
      simpleUnpack T ((simpleFrame T data).take k) packlen out = some (code, n, out)) ∧
      isSimpleContinue (simpleUnpackPtr T ((simpleFrame T data).take k) packlen p).1 := by
  have hf := simpleFrame_length T data
  have hl : ((simpleFrame T data).take k).length = k := by
    rw [List.length_take]
    omega
  unfold simpleUnpack simpleUnpackPtr
  rw [hl]
  by_cases hs : T.sizeof > k
  · rw [if_pos hs, if_pos hs]
    exact ⟨⟨_, _, Or.inl rfl, rfl⟩, Or.inl rfl⟩
  · have hp := (simplePackLength_eq_iff T data.length).mpr h
    have hn := ntoh_simpleFrame_take T data (Nat.not_lt.mp hs)
    rw [hp] at hn
    rw [if_neg hs, if_neg hs]
    simp only [hn]
    rw [if_pos (by omega), if_pos (by omega)]
    exact ⟨⟨_, _, Or.inr rfl, rfl⟩, Or.inr rfl⟩

end

/-! ## the round trip -/

/-- the block packed into any buffer `b` comes back whole, whatever stands behind it, and a proper
prefix of it asks for more -/
structure SimpleRoundTrip (T : LengthType) (data : Bytes) (b out : AutoBuffer) (p : PtrBuffer) :
    Prop where
  unpack : ∀ rest packlen, ∃ out',
    simpleUnpack T (written b (simplePack T data b) ++ rest) packlen out =
      some (SIMPLE_OK, (written b (simplePack T data b)).length, out') ∧ written out out' = data
  unpackPtr : ∀ rest packlen, ∃ p',
    simpleUnpackPtr T (written b (simplePack T data b) ++ rest) packlen p =
      (SIMPLE_OK, (written b (simplePack T data b)).length, p') ∧
      p'.view (written b (simplePack T data b) ++ rest) = data ∧ p'.length_ = data.length
  partly : ∀ k, k < (written b (simplePack T data b)).length → ∀ packlen,
    (∃ code n out', isSimpleContinue code ∧
      simpleUnpack T ((written b (simplePack T data b)).take k) packlen out = some (code, n, out')) ∧
      isSimpleContinue (simpleUnpackPtr T ((written b (simplePack T data b)).take k) packlen p).1

section
variable {T : LengthType} {data : Bytes} {b out : AutoBuffer} {p : PtrBuffer}

/-- the packet length is read off the wire, so a block that comes back had a length that fits -/
theorem SimpleRoundTrip.fits (h : SimpleRoundTrip T data b out p) :
    data.length + T.sizeof < T.limit := by
  obtain ⟨p', hp, -, -⟩ := h.unpackPtr [] 0
  rw [simplePack_written T data b, simpleFrame_length] at hp
  have hn : simplePackLength T data.length = data.length + T.sizeof := by
    unfold simpleUnpackPtr at hp
    rw [ntoh_simpleFrame] at hp
    split at hp
    · cases congrArg Prod.fst hp
    · dsimp only at hp
      split at hp
      · cases congrArg Prod.fst hp
      · have h2 : simplePackLength T data.length = T.sizeof + data.length :=
          congrArg (fun r => r.2.1) hp
        omega
  exact (simplePackLength_eq_iff T data.length).mp hn

theorem SimpleRoundTrip.of_fits (h : data.length + T.sizeof < T.limit) :
    SimpleRoundTrip T data b out p := by
  have hw := simplePack_written T data b
  refine ⟨?_, ?_, ?_⟩
  · intro rest packlen
    rw [hw]
    exact ⟨_, (simpleUnpack_of_lt T data h rest packlen out p).1, written_write out data⟩
  · intro rest packlen
    rw [hw]
    refine ⟨_, (simpleUnpack_of_lt T data h rest packlen out p).2, ?_, rfl⟩
    show ((simpleFrame T data ++ rest).drop T.sizeof).take data.length = data
    rw [simpleFrame_drop]
    exact List.take_left
  · intro k hk packlen
    rw [hw] at hk ⊢
    obtain ⟨⟨code, n, hc, e⟩, h2⟩ := simpleUnpack_take T data h k hk packlen out p
    exact ⟨⟨code, n, out, hc, e⟩, h2⟩

end

/-- **Packed blocks round trip** if and only if the type can hold their length on the wire. -/
theorem roundTrip_iff (T : LengthType) (data : Bytes) (b out : AutoBuffer) (p : PtrBuffer) :
    SimpleRoundTrip T data b out p ↔ data.length + T.sizeof < 2 ^ (8 * T.sizeof) :=
  ⟨SimpleRoundTrip.fits, SimpleRoundTrip.of_fits⟩

/-- a block of 65534 bytes is packed with the length 0 -/
theorem short_overflow : ¬ ∀ (data : Bytes) (b out : AutoBuffer) (p : PtrBuffer),
    SimpleRoundTrip .uint16_t data b out p := by
  intro hall
  have h := (hall (List.replicate 65534 0) .new .new ⟨none, 0, 0, 0⟩).fits
  rw [List.length_replicate] at h
  exact absurd h (by decide)

/-! ## any raw buffer -/

/-- what is promised of the decoders: the copy stays in the memory, and behind `SIMPLE_OK` the length
read off the buffer lies between that of the prefix and that of the buffer, and what stands behind the
prefix up to it is handed out -/
structure Unpacks (T : LengthType) (raw : Bytes) (packlen : Nat) (out : AutoBuffer) (p : PtrBuffer) :
    Prop where
  unpack : ∃ code n out', simpleUnpack T raw packlen out = some (code, n, out') ∧
    (code = SIMPLE_OK → T.sizeof ≤ n ∧ n ≤ raw.length ∧
      written out out' = (raw.take n).drop T.sizeof)
  unpackPtr : ∀ code n p', simpleUnpackPtr T raw packlen p = (code, n, p') → code = SIMPLE_OK →
    T.sizeof ≤ n ∧ n ≤ raw.length ∧ p'.length_ = n - T.sizeof ∧
      p'.view raw = (raw.take n).drop T.sizeof

section
variable {T : LengthType} {raw : Bytes} {packlen : Nat} {out : AutoBuffer} {p : PtrBuffer}

theorem ntoh_lt (T : LengthType) (raw : Bytes) : T.ntoh raw < 2 ^ 32 := by
  cases T with
  | uint16_t =>
    have := (ntohs raw).toNat_lt
    show (ntohs raw).toNat < _
    omega
  | unsigned_int => exact (ntohl raw).toNat_lt

theorem unpacks_continue {code : Int} {n : Nat} (hc : isSimpleContinue code)
    (h : simpleUnpack T raw packlen out = some (code, n, out))
    (hp : simpleUnpackPtr T raw packlen p = (code, n, p)) : Unpacks T raw packlen out p := by
  have hne : code ≠ SIMPLE_OK := by
    rcases hc with rfl | rfl
    · decide
    · decide
  refine ⟨⟨code, n, out, h, fun hok => absurd hok hne⟩, fun code' n' p' hr hok => ?_⟩
  rw [hp] at hr
  cases hr
  exact absurd hok hne

theorem unpacks_whole (hn : T.sizeof ≤ T.ntoh raw) (hraw : T.ntoh raw ≤ raw.length) :
    Unpacks T raw packlen out p := by
  have hlt := ntoh_lt T raw
  have hshort : ¬ T.sizeof > raw.length := Nat.not_lt.mpr (Nat.le_trans hn hraw)
  have hlong : ¬ T.ntoh raw > raw.length := Nat.not_lt.mpr hraw
  have hslice : (raw.drop T.sizeof).take (T.ntoh raw - T.sizeof) =
      (raw.take (T.ntoh raw)).drop T.sizeof := by
    rw [List.drop_take]
  have hsub : subSize (T.ntoh raw) T.sizeof = T.ntoh raw - T.sizeof :=
    subSize_of_le hn (by omega)
  refine ⟨⟨SIMPLE_OK, T.ntoh raw, out.write ((raw.drop T.sizeof).take (T.ntoh raw - T.sizeof)), ?_,
    fun _ => ⟨hn, hraw, ?_⟩⟩, fun code n p' hr _ => ?_⟩
  · unfold simpleUnpack
    dsimp only
    rw [if_neg hshort, if_neg hlong, if_neg (Nat.not_lt.mpr hn)]
  · rw [written_write, hslice]
  · unfold simpleUnpackPtr at hr
    dsimp only at hr
    rw [if_neg hshort, if_neg hlong, hsub] at hr
    cases hr
    exact ⟨hn, hraw, rfl, hslice⟩

/-- a prefix that is less than its own size is taken for a whole pack, and the copy leaves the memory -/
theorem simpleUnpack_wraps (hraw : T.sizeof ≤ raw.length) (hn : T.ntoh raw < T.sizeof) :
    simpleUnpack T raw packlen out = none := by
  unfold simpleUnpack
  dsimp only
  rw [if_neg (Nat.not_lt.mpr hraw), if_neg (by omega), if_pos hn]

end

/-- **A raw buffer of any content** is taken apart without wrapping around exactly when it is shorter
than the prefix or the prefix counts at least itself. -/
theorem unpacks_iff (T : LengthType) (raw : Bytes) (packlen : Nat) (out : AutoBuffer) (p : PtrBuffer) :
    Unpacks T raw packlen out p ↔ raw.length < T.sizeof ∨ T.sizeof ≤ T.ntoh raw := by
  constructor
  · intro h
    by_contra hno
    obtain ⟨hraw, hn⟩ := not_or.mp hno
    obtain ⟨code, n, out', hr, -⟩ := h.unpack
    rw [simpleUnpack_wraps (Nat.not_lt.mp hraw) (Nat.not_le.mp hn)] at hr
    cases hr
  · intro h
    by_cases hshort : T.sizeof > raw.length
    · exact unpacks_continue (Or.inl rfl) (if_pos hshort) (if_pos hshort)
    · have hn := h.resolve_left hshort
      by_cases hlong : T.ntoh raw > raw.length
      · have hdata : isSimpleContinue SIMPLE_CONTINUE_DATA := Or.inr rfl
        refine unpacks_continue (n := T.ntoh raw) hdata ?_ ?_
        · unfold simpleUnpack
          dsimp only
          rw [if_neg hshort, if_pos hlong]
        · unfold simpleUnpackPtr
          dsimp only
          rw [if_neg hshort, if_pos hlong]
      · exact unpacks_whole hn (Nat.not_lt.mp hlong)

/-- two zero bytes are a whole pack to the short decoder, of a length that wraps around -/
theorem short_zero : (simpleUnpackPtr .uint16_t [0, 0] 0 ⟨none, 0, 0, 0⟩).1 = SIMPLE_OK ∧
    (simpleUnpackPtr .uint16_t [0, 0] 0 ⟨none, 0, 0, 0⟩).2.2.length_ = 2 ^ 64 - 2 ∧
    ¬ Unpacks .uint16_t [0, 0] 0 .new ⟨none, 0, 0, 0⟩ := by
  refine ⟨by decide, by decide, fun h => ?_⟩
  obtain ⟨code, n, out', hr, -⟩ := h.unpack
  rw [simpleUnpack_wraps (by decide) (by decide)] at hr
  cases hr

end Pack
