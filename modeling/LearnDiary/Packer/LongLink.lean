import LearnDiary.Base.AutoBuffer
import LearnDiary.Packer.Adler

/-!
# The long-link frame (comm/basepacker.cc)

`packerPack` and `packerUnpack` are `Packer_Pack` and `Packer_Unpack` (the `AutoBuffer` overload).
The header is `#pragma pack(1)`: four bytes and three words, which `htonl` leaves in network order.
Error codes of `Packer_Unpack` are the `__LINE__` of the failed check.

* `pack_written`   the frame is header, url and data, written at the cursor of the buffer;
* `unpack_frame`   what the decoder does with a frame and any bytes behind it;
* `unpack_take`    what it does with a proper prefix.
-/

namespace Pack

structure LongLinkPack where
  magic : UInt8
  ver : UInt8
  head_length : UInt8
  url_length : UInt8
  total_length : UInt32
  sequence : UInt32
  hash : UInt32
deriving DecidableEq

def sizeofLongLinkPack : Nat := 16

/-- a word as `htonl` leaves it in memory -/
def htonl (n : UInt32) : Bytes :=
  [(n.toNat / 2 ^ 24).toUInt8, (n.toNat / 2 ^ 16).toUInt8, (n.toNat / 2 ^ 8).toUInt8, n.toNat.toUInt8]

/-- `ntohl` of the word at the front of the memory -/
def ntohl (m : Bytes) : UInt32 :=
  ((m.take 4).foldl (fun (acc : Nat) (c : UInt8) => acc * 2 ^ 8 + c.toNat) 0).toUInt32

/-- the struct as it is written, its words in network order -/
def LongLinkPack.toBytes (st : LongLinkPack) : Bytes :=
  [st.magic, st.ver, st.head_length, st.url_length] ++ htonl st.total_length ++ htonl st.sequence
    ++ htonl st.hash

/-- `memcpy` into the struct and the three `ntohl` -/
def LongLinkPack.ofBytes (m : Bytes) : LongLinkPack where
  magic := m.getD 0 0
  ver := m.getD 1 0
  head_length := m.getD 2 0
  url_length := m.getD 3 0
  total_length := ntohl (m.drop 4)
  sequence := ntohl (m.drop 8)
  hash := ntohl (m.drop 12)

/-- `(st.head_length + st.url_length + st.total_length) & 0xFF` -/
def LongLinkPack.magicSum (st : LongLinkPack) : UInt8 :=
  (st.head_length.toNat + st.url_length.toNat + st.total_length.toNat).toUInt8

/-- `strnlen(_url, 128)` -/
def urlSize (_url : Bytes) : Nat := (cstr (_url.take 128)).length

/-- the header `Packer_Pack` builds -/
def packHeader (_url : Bytes) (_sequence : UInt32) (_data : Bytes) (_dohash : Bool) : LongLinkPack :=
  let url_size := urlSize _url
  let st : LongLinkPack :=
    { magic := 0, ver := 1, head_length := 16, url_length := url_size.toUInt8
      total_length := 0, sequence := _sequence, hash := 0 }
  let st := { st with
    total_length := (st.head_length.toNat + st.url_length.toNat + _data.length).toUInt32 }
  let st := { st with magic := st.magicSum }
  if _dohash then
    let h := (adler32 0 (_url.take url_size)).toUInt32
    { st with hash := if _data = [] then h else (adler32 h.toNat _data).toUInt32 }
  else st

/-- `_url` is the memory the pointer leads to -/
def packerPack (_url : Bytes) (_sequence : UInt32) (_data : Bytes) (_outbuf : AutoBuffer)
    (_dohash : Bool) : AutoBuffer :=
  let st := packHeader _url _sequence _data _dohash
  let out := _outbuf.allocWrite st.total_length.toNat
  let out := out.write st.toBytes
  let out := out.write (_url.take (urlSize _url))
  out.write _data

def LONGLINKPACK_CONTINUE : Int := -3
def LONGLINKPACK_CONTINUE_HEAD : Int := -2
def LONGLINKPACK_CONTINUE_data : Int := -1
def LONGLINKPACK_OK : Int := 0

def isContinue (code : Int) : Prop :=
  code = LONGLINKPACK_CONTINUE ∨ code = LONGLINKPACK_CONTINUE_HEAD ∨ code = LONGLINKPACK_CONTINUE_data

/-- the reference parameters of `Packer_Unpack` -/
structure UnpackOut where
  _url : Bytes
  _sequence : UInt32
  _packlen : Nat
  _data : AutoBuffer

def packerUnpack (_rawbuf : Bytes) (out : UnpackOut) : Int × UnpackOut :=
  if _rawbuf.length < sizeofLongLinkPack then (LONGLINKPACK_CONTINUE, out)
  else
    let st := LongLinkPack.ofBytes _rawbuf
    let head := st.url_length.toNat + st.head_length.toNat
    if st.magicSum ≠ st.magic then (184, out)
    else if head > st.total_length.toNat then (186, out)
    else if 1024 * 1024 < st.total_length.toNat then (188, out)
    else if head > _rawbuf.length then (LONGLINKPACK_CONTINUE_HEAD, out)
    else
      let out := { out with
        _url := (_rawbuf.drop st.head_length.toNat).take st.url_length.toNat
        _sequence := st.sequence
        _packlen := st.total_length.toNat }
      if st.total_length.toNat > _rawbuf.length then (LONGLINKPACK_CONTINUE_data, out)
      else
        let body := (_rawbuf.drop st.head_length.toNat).take
          (st.total_length.toNat - st.head_length.toNat)
        if st.hash ≠ 0 ∧ st.hash.toNat ≠ adler32 0 body then (198, out)
        else (LONGLINKPACK_OK, { out with
          _data := out._data.write ((_rawbuf.drop head).take (st.total_length.toNat - head)) })

/-! ## words and the header -/

theorem toUInt8_toNat (n : Nat) : n.toUInt8.toNat = n % 2 ^ 8 := rfl
theorem toUInt32_toNat (n : Nat) : n.toUInt32.toNat = n % 2 ^ 32 := rfl

theorem toUInt32_toNat_of_lt {n : Nat} (h : n < 2 ^ 32) : n.toUInt32.toNat = n :=
  Nat.mod_eq_of_lt h

theorem ntohl_htonl (n : UInt32) (t : Bytes) : ntohl (htonl n ++ t) = n := by
  have hn := n.toNat_lt
  apply UInt32.toNat_inj.mp
  show ((((0 * 2 ^ 8 + (n.toNat / 2 ^ 24).toUInt8.toNat) * 2 ^ 8
    + (n.toNat / 2 ^ 16).toUInt8.toNat) * 2 ^ 8 + (n.toNat / 2 ^ 8).toUInt8.toNat) * 2 ^ 8
    + n.toNat.toUInt8.toNat).toUInt32.toNat = n.toNat
  rw [toUInt32_toNat, toUInt8_toNat, toUInt8_toNat, toUInt8_toNat, toUInt8_toNat]
  omega

theorem toBytes_length (st : LongLinkPack) : st.toBytes.length = 16 := rfl

theorem ofBytes_toBytes (st : LongLinkPack) (t : Bytes) : .ofBytes (st.toBytes ++ t) = st := by
  obtain ⟨m, v, hl, ul, tl, s, h⟩ := st
  show LongLinkPack.mk m v hl ul (ntohl (htonl tl ++ _)) (ntohl (htonl s ++ _))
    (ntohl (htonl h ++ t)) = _
  rw [ntohl_htonl, ntohl_htonl, ntohl_htonl]

/-- the header is known as soon as 16 bytes of the frame are there -/
theorem ofBytes_take (m : Bytes) {k : Nat} (hk : 16 ≤ k) : LongLinkPack.ofBytes (m.take k) = .ofBytes m := by
  have hg : ∀ i, i < 16 → (m.take k).getD i 0 = m.getD i 0 := by
    intro i hi
    rw [List.getD_eq_getElem?_getD, List.getD_eq_getElem?_getD, List.getElem?_take,
      if_pos (by omega)]
  have hw : ∀ i, i ≤ 12 → ntohl ((m.take k).drop i) = ntohl (m.drop i) := by
    intro i hi
    unfold ntohl
    rw [List.drop_take, List.take_take, Nat.min_eq_left (by omega)]
  unfold LongLinkPack.ofBytes
  rw [hg 0 (by omega), hg 1 (by omega), hg 2 (by omega), hg 3 (by omega), hw 4 (by omega),
    hw 8 (by omega), hw 12 (by omega)]

/-! ## the frame -/

def frame (_url : Bytes) (_sequence : UInt32) (_data : Bytes) (_dohash : Bool) : Bytes :=
  (packHeader _url _sequence _data _dohash).toBytes ++ (_url.take (urlSize _url) ++ _data)

def written (b out : AutoBuffer) : Bytes := (out.data.drop b.pos_).take (out.pos_ - b.pos_)

section
variable (url : Bytes) (seq : UInt32) (data : Bytes) (dohash : Bool)

theorem urlSize_le : urlSize url ≤ url.length := by
  have h1 := (Find.upTo_isPrefix notNul (url.take 128)).length_le
  rw [List.length_take] at h1
  exact Nat.le_trans h1 (Nat.min_le_right _ _)

theorem frame_length : (frame url seq data dohash).length = 16 + (urlSize url + data.length) := by
  have h := urlSize_le url
  unfold frame
  rw [List.length_append, List.length_append, toBytes_length, List.length_take]
  omega

theorem written_write (b : AutoBuffer) (d : Bytes) : written b (b.write d) = d := by
  have hl := b.data_length
  have hp := b.pos_le
  have e1 : (b.data.take b.pos_).length = b.pos_ := by rw [List.length_take]; omega
  unfold written
  rw [AutoBuffer.write_data_eq, AutoBuffer.write_pos, List.append_assoc, List.drop_append, e1,
    List.drop_eq_nil_of_le (by rw [e1]), Nat.sub_self, List.drop_zero, List.nil_append,
    Nat.add_sub_cancel_left, List.take_append_of_le_length (Nat.le_refl _), List.take_length]

/-- **`Packer_Pack` writes the frame at the cursor of the buffer.** -/
theorem pack_written (b : AutoBuffer) :
    written b (packerPack url seq data b dohash) = frame url seq data dohash := by
  let o := b.allocWrite (packHeader url seq data dohash).total_length.toNat
  have hdata : (packerPack url seq data b dohash).data = (o.write (frame url seq data dohash)).data := by
    show (((o.write _).write _).write _).data = _
    rw [AutoBuffer.write_write_data, AutoBuffer.write_write_data]
    rfl
  have hpos : (packerPack url seq data b dohash).pos_ = (o.write (frame url seq data dohash)).pos_ := by
    show o.pos_ + _ + _ + _ = o.pos_ + (frame url seq data dohash).length
    unfold frame
    rw [List.length_append, List.length_append]
    omega
  have h := written_write o (frame url seq data dohash)
  unfold written at h ⊢
  rw [hdata, hpos]
  exact h

/-! ## the decoder on a frame -/

theorem packHeader_head : (packHeader url seq data dohash).head_length.toNat = 16 := by
  cases dohash <;> rfl

theorem packHeader_sequence : (packHeader url seq data dohash).sequence = seq := by
  cases dohash <;> rfl

theorem urlSize_le_128 : urlSize url ≤ 128 := by
  have h1 := (Find.upTo_isPrefix notNul (url.take 128)).length_le
  rw [List.length_take] at h1
  exact Nat.le_trans h1 (Nat.min_le_left _ _)

theorem packHeader_url : (packHeader url seq data dohash).url_length.toNat = urlSize url := by
  have h := urlSize_le_128 url
  have e : (urlSize url).toUInt8.toNat = urlSize url := by
    rw [toUInt8_toNat]
    omega
  cases dohash <;> exact e

theorem packHeader_magic :
    (packHeader url seq data dohash).magicSum = (packHeader url seq data dohash).magic := by
  cases dohash <;> rfl

theorem packHeader_total (h : 16 + urlSize url + data.length ≤ 1024 * 1024) :
    (packHeader url seq data dohash).total_length.toNat = 16 + urlSize url + data.length := by
  have h1 := urlSize_le_128 url
  have e : (packHeader url seq data dohash).total_length
      = (16 + (urlSize url).toUInt8.toNat + data.length).toUInt32 := by cases dohash <;> rfl
  rw [e, toUInt8_toNat, Nat.mod_eq_of_lt (by omega), toUInt32_toNat_of_lt (by omega)]

theorem packHeader_hash_true : (packHeader url seq data true).hash.toNat =
    adler32 0 (url.take (urlSize url) ++ data) := by
  have h1 : (adler32 0 (url.take (urlSize url))).toUInt32.toNat
      = adler32 0 (url.take (urlSize url)) := toUInt32_toNat_of_lt (adler32_lt _)
  show (if data = [] then (adler32 0 (url.take (urlSize url))).toUInt32
    else (adler32 (adler32 0 (url.take (urlSize url))).toUInt32.toNat data).toUInt32).toNat = _
  split
  · rename_i e
    rw [e, List.append_nil, h1]
  · rw [h1, adler32_append]
    exact toUInt32_toNat_of_lt (adler32_lt _)

theorem packHeader_hash : (packHeader url seq data dohash).hash = 0 ∨
    (packHeader url seq data dohash).hash.toNat = adler32 0 (url.take (urlSize url) ++ data) := by
  cases dohash with
  | false => exact Or.inl rfl
  | true => exact Or.inr (packHeader_hash_true url seq data)

theorem frame_drop (k : Nat) (hk : k ≤ (url.take (urlSize url)).length) (rest : Bytes) :
    (frame url seq data dohash ++ rest).drop (16 + k)
      = (url.take (urlSize url)).drop k ++ (data ++ rest) := by
  unfold frame
  rw [List.append_assoc, ← List.drop_drop, List.drop_left' (toBytes_length _), List.append_assoc,
    List.drop_append_of_le_length hk]

theorem take_urlSize_length : (url.take (urlSize url)).length = urlSize url := by
  rw [List.length_take]
  exact Nat.min_eq_left (urlSize_le url)

theorem frame_header (rest : Bytes) : LongLinkPack.ofBytes (frame url seq data dohash ++ rest)
    = packHeader url seq data dohash := by
  unfold frame
  rw [List.append_assoc, ofBytes_toBytes]

/-- a frame and any further bytes are decoded to what was packed -/
theorem unpack_frame (h : 16 + urlSize url + data.length ≤ 1024 * 1024) (rest : Bytes)
    (out : UnpackOut) :
    packerUnpack (frame url seq data dohash ++ rest) out = (LONGLINKPACK_OK,
      { _url := url.take (urlSize url), _sequence := seq
        _packlen := (frame url seq data dohash).length, _data := out._data.write data }) := by
  have hf := frame_length url seq data dohash
  have hu := take_urlSize_length url
  have hlen : (frame url seq data dohash ++ rest).length
      = 16 + (urlSize url + data.length) + rest.length := by rw [List.length_append, hf]
  have d0 := frame_drop url seq data dohash 0 (Nat.zero_le _) rest
  have d1 := frame_drop url seq data dohash (urlSize url) (by rw [hu]) rest
  rw [Nat.add_zero, List.drop_zero] at d0
  have hnil : (url.take (urlSize url)).drop (urlSize url) = [] := List.drop_eq_nil_of_le (by rw [hu])
  rw [hnil, List.nil_append] at d1
  have e1 : (url.take (urlSize url) ++ (data ++ rest)).take (urlSize url) = url.take (urlSize url) :=
    List.take_left' hu
  have e2 : (url.take (urlSize url) ++ (data ++ rest)).take (16 + urlSize url + data.length - 16)
      = url.take (urlSize url) ++ data := by
    rw [← List.append_assoc]
    exact List.take_left' (by rw [List.length_append, hu]; omega)
  have e3 : (data ++ rest).take (16 + urlSize url + data.length - (urlSize url + 16)) = data :=
    List.take_left' (by omega)
  unfold packerUnpack
  simp only [frame_header, packHeader_magic, packHeader_head, packHeader_url, packHeader_sequence,
    packHeader_total url seq data dohash h, hlen, d0, e1, e2, Nat.add_comm (urlSize url) 16, d1]
  rw [Nat.add_comm (urlSize url) 16] at e3
  rw [if_neg (by unfold sizeofLongLinkPack; omega), if_neg (fun hne => hne rfl), if_neg (by omega),
    if_neg (by omega), if_neg (by omega), if_neg (by omega), if_neg ?_, e3, hf, Nat.add_assoc]
  rintro ⟨hz, hne⟩
  rcases packHeader_hash url seq data dohash with hh | hh
  · exact hz hh
  · exact hne hh

theorem unpack_take (h : 16 + urlSize url + data.length ≤ 1024 * 1024) (k : Nat)
    (hk : k < (frame url seq data dohash).length) (out : UnpackOut) :
    isContinue (packerUnpack ((frame url seq data dohash).take k) out).1 ∧
      (packerUnpack ((frame url seq data dohash).take k) out).2._data = out._data := by
  have hf := frame_length url seq data dohash
  have hlen : ((frame url seq data dohash).take k).length = k := by
    rw [List.length_take]
    omega
  unfold packerUnpack
  by_cases h16 : k < 16
  · rw [if_pos (by rw [hlen]; exact h16)]
    exact ⟨Or.inl rfl, rfl⟩
  · have hst := ofBytes_take (frame url seq data dohash) (Nat.not_lt.mp h16)
    have hfr := frame_header url seq data dohash []
    rw [List.append_nil] at hfr
    rw [hfr] at hst
    rw [if_neg (by rw [hlen]; exact h16)]
    simp only [hst, hlen, packHeader_magic, packHeader_head, packHeader_url,
      packHeader_total url seq data dohash h]
    rw [if_neg (fun hne => hne rfl), if_neg (by omega), if_neg (by omega)]
    by_cases hh : urlSize url + 16 > k
    · rw [if_pos hh]
      exact ⟨Or.inr (Or.inl rfl), rfl⟩
    · rw [if_neg hh, if_pos (by omega)]
      exact ⟨Or.inr (Or.inr rfl), rfl⟩

end

/-! ## the round trip -/

theorem urlSize_cstring (url tail : Bytes) (h : url.length ≤ 128) (hn : ∀ c ∈ url, c ≠ 0) :
    urlSize (url ++ 0 :: tail) = url.length := by
  have hall : ∀ c ∈ url, notNul c = true := fun c hc => by simpa [notNul] using hn c hc
  unfold urlSize cstr Find.upTo
  rw [List.take_append, List.take_of_length_le h, List.takeWhile_append_of_pos hall,
    List.length_append]
  cases 128 - url.length <;> simp [notNul]

/-- **Frames round trip.**  `url` is a C string of at most 128 bytes; the frame is what
`Packer_Pack` wrote into any buffer `b`. -/
theorem unpack_pack (url tail : Bytes) (seq : UInt32) (data : Bytes) (dohash : Bool) (b : AutoBuffer)
    (out : UnpackOut) (hurl : url.length ≤ 128) (hnul : ∀ c ∈ url, c ≠ 0)
    (hframe : 16 + url.length + data.length ≤ 1024 * 1024) :
    let f := written b (packerPack (url ++ 0 :: tail) seq data b dohash)
    (∀ rest, packerUnpack (f ++ rest) out = (LONGLINKPACK_OK,
      { _url := url, _sequence := seq, _packlen := f.length, _data := out._data.write data })) ∧
    written out._data (out._data.write data) = data ∧
    ∀ k, k < f.length → isContinue (packerUnpack (f.take k) out).1 ∧
      (packerUnpack (f.take k) out).2._data = out._data := by
  have hs := urlSize_cstring url tail hurl hnul
  have ht : (url ++ 0 :: tail).take (urlSize (url ++ 0 :: tail)) = url := by
    rw [hs]
    exact List.take_left
  have hb : 16 + urlSize (url ++ 0 :: tail) + data.length ≤ 1024 * 1024 := by rwa [hs]
  intro f
  have hf : f = frame (url ++ 0 :: tail) seq data dohash := pack_written _ _ _ _ b
  rw [hf]
  refine ⟨?_, written_write _ _, ?_⟩
  · intro rest
    rw [unpack_frame _ _ _ _ hb, ht]
  · intro k hk
    exact unpack_take _ _ _ _ hb k hk out

theorem unpack_pack_hello :
    let f := written .new (packerPack (ascii "/a" ++ 0 :: []) 7 (ascii "hello") .new true)
    (∀ rest, packerUnpack (f ++ rest) ⟨[], 0, 0, .new⟩ = (LONGLINKPACK_OK,
      { _url := ascii "/a", _sequence := 7, _packlen := f.length
        _data := AutoBuffer.new.write (ascii "hello") })) ∧
    written .new (AutoBuffer.new.write (ascii "hello")) = ascii "hello" ∧
    ∀ k, k < f.length → isContinue (packerUnpack (f.take k) ⟨[], 0, 0, .new⟩).1 ∧
      (packerUnpack (f.take k) ⟨[], 0, 0, .new⟩).2._data = AutoBuffer.new :=
  unpack_pack (ascii "/a") [] 7 (ascii "hello") true .new ⟨[], 0, 0, .new⟩ (by decide)
    (by decide +kernel) (by decide)

end Pack
