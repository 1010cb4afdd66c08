import LearnDiary.Packer.LongLink

/-!
# Frame sanity of the long-link decoder (comm/basepacker.cc, ptrbuffer.cc)

`packerUnpackPtr` is the `PtrBuffer` overload of `Packer_Unpack`: it makes the same checks as
`packerUnpack`, under its own line numbers, and attaches the payload instead of copying it.  Neither
compares `head_length` with the size of the header.

* `checkCode_ok_iff`   the frames that are accepted, by both overloads;
* `sane_iff`           which of them have sane lengths.
-/

namespace Pack

/-! ## the other overload -/

/-- `parray_` is an offset into the memory that is attached, none for `NULL` -/
structure PtrBuffer where
  parray_ : Option Nat
  pos_ : Int
  length_ : Nat
  max_length_ : Nat
deriving DecidableEq

namespace PtrBuffer

def reset (_b : PtrBuffer) : PtrBuffer := ⟨none, 0, 0, 0⟩

/-- `Attach(_pBuffer, _nLen)` -/
def attach (b : PtrBuffer) (_pBuffer _nLen : Nat) : PtrBuffer :=
  { b.reset with parray_ := some _pBuffer, length_ := _nLen, max_length_ := _nLen }

end PtrBuffer

structure UnpackPtrOut where
  _url : Bytes
  _sequence : UInt32
  _packlen : Nat
  _data : PtrBuffer
deriving DecidableEq

def packerUnpackPtr (_rawbuf : Bytes) (out : UnpackPtrOut) : Int × UnpackPtrOut :=
  if _rawbuf.length < sizeofLongLinkPack then (LONGLINKPACK_CONTINUE, out)
  else
    let st := LongLinkPack.ofBytes _rawbuf
    let head := st.url_length.toNat + st.head_length.toNat
    if st.magicSum ≠ st.magic then (214, out)
    else if head > st.total_length.toNat then (216, out)
    else if 1024 * 1024 < st.total_length.toNat then (218, out)
    else if head > _rawbuf.length then (LONGLINKPACK_CONTINUE_HEAD, out)
    else
      let out := { out with
        _url := (_rawbuf.drop st.head_length.toNat).take st.url_length.toNat
        _sequence := st.sequence
        _packlen := st.total_length.toNat }
      if st.total_length.toNat > _rawbuf.length then (LONGLINKPACK_CONTINUE_data, out)
      else
        let body := (_rawbuf.drop st.head_length.toNat).take
          (st.total_length.toNat - st.head_length.toNat)
        if st.hash ≠ 0 ∧ st.hash.toNat ≠ adler32 0 body then (228, out)
        else (LONGLINKPACK_OK, { out with
          _data := out._data.attach head (st.total_length.toNat - head) })

/-! ## what is accepted -/

structure Passes (_rawbuf : Bytes) : Prop where
  header : sizeofLongLinkPack ≤ _rawbuf.length
  magic : (LongLinkPack.ofBytes _rawbuf).magicSum = (LongLinkPack.ofBytes _rawbuf).magic
  head : (LongLinkPack.ofBytes _rawbuf).url_length.toNat +
    (LongLinkPack.ofBytes _rawbuf).head_length.toNat ≤ (LongLinkPack.ofBytes _rawbuf).total_length.toNat
  size : (LongLinkPack.ofBytes _rawbuf).total_length.toNat ≤ 1024 * 1024
  total : (LongLinkPack.ofBytes _rawbuf).total_length.toNat ≤ _rawbuf.length
  hash : (LongLinkPack.ofBytes _rawbuf).hash = 0 ∨ (LongLinkPack.ofBytes _rawbuf).hash.toNat =
    adler32 0 ((_rawbuf.drop (LongLinkPack.ofBytes _rawbuf).head_length.toNat).take
      ((LongLinkPack.ofBytes _rawbuf).total_length.toNat -
        (LongLinkPack.ofBytes _rawbuf).head_length.toNat))

/-- the code of the decoder whose first check stands on `line` -/
def checkCode (line : Int) (_rawbuf : Bytes) : Int :=
  if _rawbuf.length < sizeofLongLinkPack then LONGLINKPACK_CONTINUE
  else
    let st := LongLinkPack.ofBytes _rawbuf
    let head := st.url_length.toNat + st.head_length.toNat
    if st.magicSum ≠ st.magic then line
    else if head > st.total_length.toNat then line + 2
    else if 1024 * 1024 < st.total_length.toNat then line + 4
    else if head > _rawbuf.length then LONGLINKPACK_CONTINUE_HEAD
    else if st.total_length.toNat > _rawbuf.length then LONGLINKPACK_CONTINUE_data
    else
      let body := (_rawbuf.drop st.head_length.toNat).take
        (st.total_length.toNat - st.head_length.toNat)
      if st.hash ≠ 0 ∧ st.hash.toNat ≠ adler32 0 body then line + 14
      else LONGLINKPACK_OK

section
variable (raw : Bytes)

theorem packerUnpack_code (out : UnpackOut) :
    (packerUnpack raw out).1 = checkCode 184 raw ∧ (checkCode 184 raw = LONGLINKPACK_OK →
      (packerUnpack raw out).2._packlen = (LongLinkPack.ofBytes raw).total_length.toNat) := by
  unfold packerUnpack checkCode
  dsimp only
  repeat' split
  all_goals first
    | exact ⟨rfl, fun _ => rfl⟩
    | exact ⟨rfl, fun h => by cases h⟩

theorem packerUnpackPtr_code (out : UnpackPtrOut) :
    (packerUnpackPtr raw out).1 = checkCode 214 raw ∧ (checkCode 214 raw = LONGLINKPACK_OK →
      (packerUnpackPtr raw out).2._packlen = (LongLinkPack.ofBytes raw).total_length.toNat) := by
  unfold packerUnpackPtr checkCode
  dsimp only
  repeat' split
  all_goals first
    | exact ⟨rfl, fun _ => rfl⟩
    | exact ⟨rfl, fun h => by cases h⟩

theorem checkCode_ok_iff {line : Int} (hline : 0 < line) :
    checkCode line raw = LONGLINKPACK_OK ↔ Passes raw := by
  have hne : ∀ k : Int, 0 ≤ k → line + k ≠ LONGLINKPACK_OK := by
    intro k hk
    unfold LONGLINKPACK_OK
    omega
  constructor
  · intro hok
    unfold checkCode at hok
    split at hok
    · cases hok
    · rename_i hlen
      dsimp only at hok
      split at hok
      · exact absurd hok (by simpa using hne 0 le_rfl)
      · rename_i hmagic
        split at hok
        · exact absurd hok (hne 2 (by omega))
        · rename_i hhead
          split at hok
          · exact absurd hok (hne 4 (by omega))
          · rename_i hsize
            split at hok
            · cases hok
            · split at hok
              · cases hok
              · rename_i htotal
                split at hok
                · exact absurd hok (hne 14 (by omega))
                · rename_i hhash
                  refine ⟨by omega, not_not.mp hmagic, by omega, by omega, by omega, ?_⟩
                  by_cases h0 : (LongLinkPack.ofBytes raw).hash = 0
                  · exact Or.inl h0
                  · exact Or.inr (not_not.mp (fun h1 => hhash ⟨h0, h1⟩))
  · intro h
    have hhead := h.head
    have hsize := h.size
    have htotal := h.total
    unfold checkCode
    rw [if_neg (Nat.not_lt.mpr h.header)]
    dsimp only
    rw [if_neg (fun h0 => h0 h.magic), if_neg (by omega), if_neg (by omega), if_neg (by omega),
      if_neg (by omega), if_neg ?_]
    rintro ⟨h0, h1⟩
    rcases h.hash with hh | hh
    · exact h0 hh
    · exact h1 hh

end

/-! ## sane lengths -/

/-- a frame that is accepted has a whole header, url and payload lie behind it, and `packlen` bytes
are there -/
def Sane (_rawbuf : Bytes) (code : Int) (_packlen : Nat) : Prop :=
  code = LONGLINKPACK_OK →
    sizeofLongLinkPack ≤ (LongLinkPack.ofBytes _rawbuf).head_length.toNat ∧
    (LongLinkPack.ofBytes _rawbuf).head_length.toNat +
      (LongLinkPack.ofBytes _rawbuf).url_length.toNat ≤ _packlen ∧
    _packlen ≤ _rawbuf.length ∧ sizeofLongLinkPack ≤ _packlen

theorem sane_of_passes {raw : Bytes} {line code : Int} {packlen : Nat} (hline : 0 < line)
    (h : code = checkCode line raw ∧ (checkCode line raw = LONGLINKPACK_OK →
      packlen = (LongLinkPack.ofBytes raw).total_length.toNat)) :
    Sane raw code packlen ↔
      (Passes raw → sizeofLongLinkPack ≤ (LongLinkPack.ofBytes raw).head_length.toNat) := by
  obtain ⟨rfl, hlen⟩ := h
  have hok := checkCode_ok_iff raw hline
  constructor
  · intro hs hp
    exact (hs (hok.mpr hp)).1
  · intro hh hcode
    have hp := hok.mp hcode
    have h16 := hh hp
    have h1 := hp.head
    have h2 := hp.total
    rw [hlen hcode]
    refine ⟨h16, ?_, h2, ?_⟩
    · omega
    · omega

/-- **Frame sanity**: both overloads accept a frame with sane lengths if and only if a frame that
passes their checks has a `head_length` of at least the size of the header. -/
theorem sane_iff (raw : Bytes) (out : UnpackOut) (out' : UnpackPtrOut) :
    (Sane raw (packerUnpack raw out).1 (packerUnpack raw out).2._packlen ↔
      (Passes raw → sizeofLongLinkPack ≤ (LongLinkPack.ofBytes raw).head_length.toNat)) ∧
    (Sane raw (packerUnpackPtr raw out').1 (packerUnpackPtr raw out').2._packlen ↔
      (Passes raw → sizeofLongLinkPack ≤ (LongLinkPack.ofBytes raw).head_length.toNat)) :=
  ⟨sane_of_passes (by decide) (packerUnpack_code raw out),
    sane_of_passes (by decide) (packerUnpackPtr_code raw out')⟩

/-- sixteen zeros are accepted as a frame of no bytes -/
theorem zeros_accepted : ¬ ∀ raw out out',
    Sane raw (packerUnpack raw out).1 (packerUnpack raw out).2._packlen ∧
      Sane raw (packerUnpackPtr raw out').1 (packerUnpackPtr raw out').2._packlen := by
  intro hall
  have h := (hall (List.replicate 16 0) ⟨[], 0, 0, .new⟩ ⟨[], 0, 0, ⟨none, 0, 0, 0⟩⟩).2
  have hok : (packerUnpackPtr (List.replicate 16 0) ⟨[], 0, 0, ⟨none, 0, 0, 0⟩⟩).1 =
      LONGLINKPACK_OK := by decide
  have hhead := (h hok).1
  revert hhead
  decide

end Pack
