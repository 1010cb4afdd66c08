import LearnDiary.Lib.Reads
import LearnDiary.Packer.Corruption

/-!
# The two overloads of `Packer_Unpack` agree (comm/basepacker.cc)

`packerUnpackAt` and `packerUnpackPtrAt` are the two overloads over a memory that does not end at
`_rawlen`: they keep the ranges they read.  `packerUnpackAt_within`, `packerUnpackPtrAt_within`
say that they compute what `packerUnpack`, `packerUnpackPtr` compute on the first `_rawlen` bytes,
and read nothing behind them.
-/

namespace Pack
open Reads

/-! ## the decoders with their reads -/

/-- the bytes of the checksum; it is not computed where none is stored -/
def hashedAt (mem : Nat → UInt8) (st : LongLinkPack) : Reader Bytes :=
  if st.hash ≠ 0 then read mem st.head_length.toNat (st.total_length.toNat - st.head_length.toNat)
  else pure []

def packerUnpackAt (mem : Nat → UInt8) (_rawlen : Nat) (out : UnpackOut) :
    Reader (Int × UnpackOut) :=
  if _rawlen < sizeofLongLinkPack then pure (LONGLINKPACK_CONTINUE, out)
  else do
    let st := LongLinkPack.ofBytes (← read mem 0 sizeofLongLinkPack)
    let head := st.url_length.toNat + st.head_length.toNat
    if st.magicSum ≠ st.magic then pure (184, out)
    else if head > st.total_length.toNat then pure (186, out)
    else if 1024 * 1024 < st.total_length.toNat then pure (188, out)
    else if head > _rawlen then pure (LONGLINKPACK_CONTINUE_HEAD, out)
    else do
      let _url ← read mem st.head_length.toNat st.url_length.toNat
      let out := { out with _url, _sequence := st.sequence, _packlen := st.total_length.toNat }
      if st.total_length.toNat > _rawlen then pure (LONGLINKPACK_CONTINUE_data, out)
      else do
        let body ← hashedAt mem st
        if st.hash ≠ 0 ∧ st.hash.toNat ≠ adler32 0 body then pure (198, out)
        else do
          let payload ← read mem head (st.total_length.toNat - head)
          pure (LONGLINKPACK_OK, { out with _data := out._data.write payload })

def packerUnpackPtrAt (mem : Nat → UInt8) (_rawlen : Nat) (out : UnpackPtrOut) :
    Reader (Int × UnpackPtrOut) :=
  if _rawlen < sizeofLongLinkPack then pure (LONGLINKPACK_CONTINUE, out)
  else do
    let st := LongLinkPack.ofBytes (← read mem 0 sizeofLongLinkPack)
    let head := st.url_length.toNat + st.head_length.toNat
    if st.magicSum ≠ st.magic then pure (214, out)
    else if head > st.total_length.toNat then pure (216, out)
    else if 1024 * 1024 < st.total_length.toNat then pure (218, out)
    else if head > _rawlen then pure (LONGLINKPACK_CONTINUE_HEAD, out)
    else do
      let _url ← read mem st.head_length.toNat st.url_length.toNat
      let out := { out with _url, _sequence := st.sequence, _packlen := st.total_length.toNat }
      if st.total_length.toNat > _rawlen then pure (LONGLINKPACK_CONTINUE_data, out)
      else do
        let body ← hashedAt mem st
        if st.hash ≠ 0 ∧ st.hash.toNat ≠ adler32 0 body then pure (228, out)
        else pure (LONGLINKPACK_OK, { out with
          _data := out._data.attach head (st.total_length.toNat - head) })

section
variable (mem : Nat → UInt8) (rawlen : Nat)

/-- the header needs the first 16 bytes only -/
theorem ofBytes_header : LongLinkPack.ofBytes (((cells mem 0 rawlen).drop 0).take
    sizeofLongLinkPack) = LongLinkPack.ofBytes (cells mem 0 rawlen) :=
  ofBytes_take (cells mem 0 rawlen) (Nat.le_refl 16)

theorem hash_body (st : LongLinkPack) (body : Bytes) :
    (st.hash ≠ 0 ∧ st.hash.toNat ≠ adler32 0 (if st.hash ≠ 0 then body else [])) ↔
      (st.hash ≠ 0 ∧ st.hash.toNat ≠ adler32 0 body) := by
  by_cases h : st.hash = 0
  · exact ⟨fun h0 => absurd h h0.1, fun h0 => absurd h h0.1⟩
  · rw [if_pos h]

theorem hashedAt_within (st : LongLinkPack)
    (h : st.head_length.toNat + (st.total_length.toNat - st.head_length.toNat) ≤ rawlen) :
    Within rawlen (hashedAt mem st) (if st.hash ≠ 0 then
      ((cells mem 0 rawlen).drop st.head_length.toNat).take
        (st.total_length.toNat - st.head_length.toNat) else []) := by
  unfold hashedAt
  apply Within.ite
  · exact fun _ => Within.read mem h
  · exact fun _ => Within.pure rawlen []

theorem packerUnpackAt_within (out : UnpackOut) :
    Within rawlen (packerUnpackAt mem rawlen out) (packerUnpack (cells mem 0 rawlen) out) := by
  unfold packerUnpackAt packerUnpack
  rw [cells_length]
  apply Within.ite (fun _ => Within.pure _ _)
  intro h16
  apply Within.bind (Within.read mem (by omega))
  rw [ofBytes_header]
  dsimp only
  apply Within.ite (fun _ => Within.pure _ _)
  intro _
  apply Within.ite (fun _ => Within.pure _ _)
  intro hhead
  apply Within.ite (fun _ => Within.pure _ _)
  intro _
  apply Within.ite (fun _ => Within.pure _ _)
  intro hraw
  apply Within.bind (Within.read mem (by omega))
  apply Within.ite (fun _ => Within.pure _ _)
  intro htotal
  apply Within.bind (hashedAt_within mem rawlen _ (by omega))
  simp only [hash_body]
  apply Within.ite (fun _ => Within.pure _ _)
  intro _
  exact Within.bind (Within.read mem (by omega)) (Within.pure _ _)

theorem packerUnpackPtrAt_within (out : UnpackPtrOut) :
    Within rawlen (packerUnpackPtrAt mem rawlen out) (packerUnpackPtr (cells mem 0 rawlen) out) := by
  unfold packerUnpackPtrAt packerUnpackPtr
  rw [cells_length]
  apply Within.ite (fun _ => Within.pure _ _)
  intro h16
  apply Within.bind (Within.read mem (by omega))
  rw [ofBytes_header]
  dsimp only
  apply Within.ite (fun _ => Within.pure _ _)
  intro _
  apply Within.ite (fun _ => Within.pure _ _)
  intro hhead
  apply Within.ite (fun _ => Within.pure _ _)
  intro _
  apply Within.ite (fun _ => Within.pure _ _)
  intro hraw
  apply Within.bind (Within.read mem (by omega))
  apply Within.ite (fun _ => Within.pure _ _)
  intro htotal
  apply Within.bind (hashedAt_within mem rawlen _ (by omega))
  simp only [hash_body]
  exact Within.ite (fun _ => Within.pure _ _) (fun _ => Within.pure _ _)

end

/-! ## agreement -/

/-- both OK, both the same request for more bytes, or both an error -/
def SameCode (code code' : Int) : Prop :=
  (code = code' ∧ (code = LONGLINKPACK_OK ∨ isContinue code)) ∨ (isError code ∧ isError code')

/-- the outcomes of the two overloads on the bytes `raw`; `old` is the buffer the first was given -/
structure Agree (raw : Bytes) (old : AutoBuffer) (r : Int × UnpackOut) (r' : Int × UnpackPtrOut) :
    Prop where
  code : SameCode r.1 r'.1
  url : r.2._url = r'.2._url
  sequence : r.2._sequence = r'.2._sequence
  packlen : r.2._packlen = r'.2._packlen
  payload : r.1 = LONGLINKPACK_OK → ∃ off n, r'.2._data = ⟨some off, 0, n, n⟩ ∧
    off + n ≤ raw.length ∧ written old r.2._data = (raw.drop off).take n

theorem agree (raw url : Bytes) (seq : UInt32) (packlen : Nat) (data : AutoBuffer)
    (data' : PtrBuffer) : Agree raw data (packerUnpack raw ⟨url, seq, packlen, data⟩)
      (packerUnpackPtr raw ⟨url, seq, packlen, data'⟩) := by
  unfold packerUnpack packerUnpackPtr
  dsimp only
  have herr : ∀ line line' : Int, 0 < line → 0 < line' → SameCode line line' :=
    fun _ _ h h' => Or.inr ⟨isError_line h, isError_line h'⟩
  repeat' split
  · exact ⟨Or.inl ⟨rfl, Or.inr (Or.inl rfl)⟩, rfl, rfl, rfl, fun h => by cases h⟩
  · exact ⟨herr 184 214 (by decide) (by decide), rfl, rfl, rfl, fun h => by cases h⟩
  · exact ⟨herr 186 216 (by decide) (by decide), rfl, rfl, rfl, fun h => by cases h⟩
  · exact ⟨herr 188 218 (by decide) (by decide), rfl, rfl, rfl, fun h => by cases h⟩
  · exact ⟨Or.inl ⟨rfl, Or.inr (Or.inr (Or.inl rfl))⟩, rfl, rfl, rfl, fun h => by cases h⟩
  · exact ⟨Or.inl ⟨rfl, Or.inr (Or.inr (Or.inr rfl))⟩, rfl, rfl, rfl, fun h => by cases h⟩
  · exact ⟨herr 198 228 (by decide) (by decide), rfl, rfl, rfl, fun h => by cases h⟩
  · refine ⟨Or.inl ⟨rfl, Or.inl rfl⟩, rfl, rfl, rfl, fun _ => ⟨_, _, rfl, by omega, ?_⟩⟩
    exact written_write data _

/-- **The overloads agree**, on every memory and every length: on the code, on url, sequence
number and packet length, and on the payload.  Neither reads at or behind `_rawlen`. -/
theorem unpack_overloads (mem : Nat → UInt8) (_rawlen : Nat) (url : Bytes) (seq : UInt32)
    (packlen : Nat) (data : AutoBuffer) (data' : PtrBuffer) :
    let m := packerUnpackAt mem _rawlen ⟨url, seq, packlen, data⟩ []
    let m' := packerUnpackPtrAt mem _rawlen ⟨url, seq, packlen, data'⟩ []
    Agree (cells mem 0 _rawlen) data m.1 m'.1 ∧
      (∀ r ∈ m.2, inside _rawlen r) ∧ ∀ r ∈ m'.2, inside _rawlen r := by
  intro m m'
  have h := (packerUnpackAt_within mem _rawlen ⟨url, seq, packlen, data⟩).run
  have h' := (packerUnpackPtrAt_within mem _rawlen ⟨url, seq, packlen, data'⟩).run
  refine ⟨?_, h.2, h'.2⟩
  show Agree _ data (packerUnpackAt mem _rawlen ⟨url, seq, packlen, data⟩ []).1
    (packerUnpackPtrAt mem _rawlen ⟨url, seq, packlen, data'⟩ []).1
  rw [h.1, h'.1]
  exact agree (cells mem 0 _rawlen) url seq packlen data data'

end Pack
