import LearnDiary.Packer.Sanity

/-!
# A changed byte in a frame (comm/basepacker.cc, adler32.c)

The checksum of one byte string is never that of another that differs in one byte.  A stored
checksum of 0 however stands for none, and the url and data of a frame can have that checksum.

* `adler32_set`       one changed byte changes the checksum;
* `adler32_zero_iff`  whose checksum is 0;
* `checkCode_body`    what the decoder does with a header and any body of the length it names.
-/

namespace Pack

/-! ## the two sums from 0 -/

def byteSum (m : Bytes) : Nat := (m.map UInt8.toNat).sum

/-- every byte counts once for itself and once for every byte behind it -/
def weightedSum : Bytes → Nat
  | [] => 0
  | c :: m => (m.length + 1) * c.toNat + weightedSum m

theorem byteSum_append (a b : Bytes) : byteSum (a ++ b) = byteSum a + byteSum b := by
  unfold byteSum
  rw [List.map_append, List.sum_append]

theorem byteSum_cons (c : UInt8) (m : Bytes) : byteSum (c :: m) = c.toNat + byteSum m := rfl

theorem sums_eq (s : Nat × Nat) (m : Bytes) :
    sums s m = (s.1 + byteSum m, s.2 + (m.length * s.1 + weightedSum m)) := by
  induction m generalizing s with
  | nil =>
    show s = (s.1 + 0, s.2 + (0 * s.1 + 0))
    rw [Nat.zero_mul, Nat.add_zero, Nat.add_zero]
  | cons c m ih =>
    show sums (do1 s c) m = _
    rw [ih, byteSum_cons]
    apply Prod.ext
    · show s.1 + c.toNat + byteSum m = s.1 + (c.toNat + byteSum m)
      omega
    · show s.2 + (s.1 + c.toNat) + (m.length * (s.1 + c.toNat) + weightedSum m)
        = s.2 + ((m.length + 1) * s.1 + ((m.length + 1) * c.toNat + weightedSum m))
      rw [Nat.add_mul, Nat.add_mul, Nat.mul_add]
      omega

theorem split_zero : split 0 = (0, 0) := rfl

/-- the state that the checksum of a byte string stands for -/
theorem split_adler32_zero (m : Bytes) :
    split (adler32 0 m) = (byteSum m % BASE, weightedSum m % BASE) := by
  rw [split_adler32 0 m (by decide), split_zero, sums_eq]
  show reduce (0 + byteSum m, 0 + (m.length * 0 + weightedSum m)) = _
  rw [Nat.zero_add, Nat.zero_add, Nat.mul_zero, Nat.zero_add]
  rfl

theorem adler32_zero_iff (m : Bytes) :
    adler32 0 m = 0 ↔ BASE ∣ byteSum m ∧ BASE ∣ weightedSum m := by
  have hs := split_adler32_zero m
  rw [Nat.dvd_iff_mod_eq_zero, Nat.dvd_iff_mod_eq_zero]
  constructor
  · intro h
    rw [h, split_zero] at hs
    exact ⟨(congrArg Prod.fst hs).symm, (congrArg Prod.snd hs).symm⟩
  · rintro ⟨h1, h2⟩
    have e : adler32 0 m = combine (reduce (sums (0, 0) m)) := adler32_eq 0 m (by decide)
    have hr : reduce (sums (0, 0) m) = split (adler32 0 m) :=
      (split_adler32 0 m (by decide)).symm
    rw [e, hr, hs, h1, h2]
    rfl

/-- **One changed byte changes the checksum.** -/
theorem adler32_set (m : Bytes) {i : Nat} (hi : i < m.length) {c : UInt8} (hc : c ≠ m[i]) :
    adler32 0 (m.set i c) ≠ adler32 0 m := by
  have e1 : byteSum (m.set i c) = byteSum (m.take i) + (c.toNat + byteSum (m.drop (i + 1))) := by
    rw [List.set_eq_take_append_cons_drop, if_pos hi, byteSum_append, byteSum_cons]
  have e2 : byteSum m = byteSum (m.take i) + (m[i].toNat + byteSum (m.drop (i + 1))) := by
    have hm : m = m.take i ++ m[i] :: m.drop (i + 1) := by
      rw [List.getElem_cons_drop, List.take_append_drop]
    conv_lhs => rw [hm]
    rw [byteSum_append, byteSum_cons]
  intro h
  -- bytes are far below the modulus, so the sums differ there too
  have hf := congrArg Prod.fst ((split_adler32_zero (m.set i c)).symm.trans
    ((congrArg split h).trans (split_adler32_zero m)))
  have hm : byteSum (m.set i c) % BASE = byteSum m % BASE := hf
  have h1 : c.toNat < 256 := c.toNat_lt
  have h2 : m[i].toNat < 256 := m[i].toNat_lt
  have hne : c.toNat ≠ m[i].toNat := fun h0 => hc (UInt8.toNat_inj.mp h0)
  unfold BASE at hm
  omega

/-! ## a header and another body -/

section
variable (url : Bytes) (seq : UInt32) (data : Bytes)

theorem checkCode_body (line : Int) (h : 16 + urlSize url + data.length ≤ 1024 * 1024)
    (m rest : Bytes) (hm : m.length = urlSize url + data.length) :
    checkCode line ((packHeader url seq data true).toBytes ++ (m ++ rest)) =
      if adler32 0 (url.take (urlSize url) ++ data) ≠ 0 ∧
        adler32 0 (url.take (urlSize url) ++ data) ≠ adler32 0 m then line + 14
      else LONGLINKPACK_OK := by
  have hz : (packHeader url seq data true).hash ≠ 0 ↔
      adler32 0 (url.take (urlSize url) ++ data) ≠ 0 := by
    rw [← packHeader_hash_true url seq data]
    exact not_congr UInt32.toNat_inj.symm
  have hlen : ((packHeader url seq data true).toBytes ++ (m ++ rest)).length
      = 16 + (urlSize url + data.length) + rest.length := by
    rw [List.length_append, List.length_append, toBytes_length, hm]
    exact (Nat.add_assoc _ _ _).symm
  have hd : ((packHeader url seq data true).toBytes ++ (m ++ rest)).drop 16 = m ++ rest :=
    List.drop_left' (toBytes_length _)
  have ht : (m ++ rest).take (16 + urlSize url + data.length - 16) = m :=
    List.take_left' (by omega)
  unfold checkCode
  simp only [ofBytes_toBytes, packHeader_magic, packHeader_head, packHeader_url,
    packHeader_total url seq data true h, packHeader_hash_true, hlen, hd, ht, hz]
  rw [if_neg (by unfold sizeofLongLinkPack; omega), if_neg (fun hne => hne rfl), if_neg (by omega),
    if_neg (by omega), if_neg (by omega), if_neg (by omega)]

end

/-! ## detection -/

/-- neither OK nor a request for more bytes -/
def isError (code : Int) : Prop := code ≠ LONGLINKPACK_OK ∧ ¬ isContinue code

theorem isError_line {line : Int} (h : 0 < line) : isError line := by
  unfold isError isContinue LONGLINKPACK_OK LONGLINKPACK_CONTINUE LONGLINKPACK_CONTINUE_HEAD
    LONGLINKPACK_CONTINUE_data
  omega

theorem not_isError_ok : ¬ isError LONGLINKPACK_OK := fun h => h.1 rfl

/-- a changed byte of the body is seen unless the frame stores the checksum 0 -/
theorem checkCode_set (url : Bytes) (seq : UInt32) (data : Bytes) {line : Int} (hline : 0 < line)
    (h : 16 + urlSize url + data.length ≤ 1024 * 1024) {i : Nat} {c : UInt8}
    (hi : i < (url.take (urlSize url) ++ data).length)
    (hc : c ≠ (url.take (urlSize url) ++ data)[i]) (rest : Bytes) :
    isError (checkCode line ((frame url seq data true).set (16 + i) c ++ rest)) ↔
      adler32 0 (url.take (urlSize url) ++ data) ≠ 0 := by
  have hs : (frame url seq data true).set (16 + i) c =
      (packHeader url seq data true).toBytes ++ (url.take (urlSize url) ++ data).set i c := by
    unfold frame
    rw [List.set_append_right _ _ (by rw [toBytes_length]; omega), toBytes_length,
      Nat.add_sub_cancel_left]
  have hl : ((url.take (urlSize url) ++ data).set i c).length = urlSize url + data.length := by
    rw [List.length_set, List.length_append, take_urlSize_length]
  have hne := (adler32_set _ hi hc).symm
  rw [hs, List.append_assoc, checkCode_body url seq data line h _ rest hl]
  by_cases hz : adler32 0 (url.take (urlSize url) ++ data) = 0
  · rw [if_neg (fun h0 => h0.1 hz)]
    exact ⟨fun h0 => absurd h0 not_isError_ok, fun h0 => absurd hz h0⟩
  · rw [if_pos ⟨hz, hne⟩]
    exact ⟨fun _ => hz, fun _ => isError_line (by omega)⟩

/-- **Corruption**: a byte of the url or of the data changed in a packed frame is an error to both
overloads if and only if the two sums of url and data are not both multiples of 65521. -/
theorem corrupted_iff (url tail : Bytes) (seq : UInt32) (data : Bytes) (b : AutoBuffer)
    (hurl : url.length ≤ 128) (hnul : ∀ c ∈ url, c ≠ 0)
    (hframe : 16 + url.length + data.length ≤ 1024 * 1024) (i : Nat)
    (hi : i < (url ++ data).length) (c : UInt8) (hc : c ≠ (url ++ data)[i]) (rest : Bytes)
    (out : UnpackOut) (out' : UnpackPtrOut) :
    let f := written b (packerPack (url ++ 0 :: tail) seq data b true)
    let detected := ¬ (65521 ∣ byteSum (url ++ data) ∧ 65521 ∣ weightedSum (url ++ data))
    (isError (packerUnpack (f.set (16 + i) c ++ rest) out).1 ↔ detected) ∧
      (isError (packerUnpackPtr (f.set (16 + i) c ++ rest) out').1 ↔ detected) := by
  have hs := urlSize_cstring url tail hurl hnul
  have ht : (url ++ 0 :: tail).take (urlSize (url ++ 0 :: tail)) = url := by
    rw [hs]
    exact List.take_left
  have hb : 16 + urlSize (url ++ 0 :: tail) + data.length ≤ 1024 * 1024 := by rwa [hs]
  intro f detected
  have hf : f = frame (url ++ 0 :: tail) seq data true := pack_written _ _ _ _ b
  have hd : adler32 0 (url ++ data) ≠ 0 ↔ detected := not_congr (adler32_zero_iff (url ++ data))
  have hcode : ∀ line : Int, 0 < line →
      (isError (checkCode line (f.set (16 + i) c ++ rest)) ↔ detected) := by
    intro line hline
    have h := checkCode_set (url ++ 0 :: tail) seq data hline hb (i := i) (c := c)
      (by rw [ht]; exact hi) (by simp only [ht]; exact hc) rest
    rw [hf, h, ht]
    exact hd
  rw [(packerUnpack_code _ out).1, (packerUnpackPtr_code _ out').1]
  exact ⟨hcode 184 (by decide), hcode 214 (by decide)⟩

theorem corrupted_iff_a :
    let f := written .new (packerPack (ascii "a" ++ 0 :: []) 7 [1, 2] .new true)
    let detected := ¬ (65521 ∣ byteSum (ascii "a" ++ [1, 2]) ∧ 65521 ∣ weightedSum (ascii "a" ++ [1, 2]))
    (isError (packerUnpack (f.set (16 + 2) 3 ++ []) ⟨[], 0, 0, .new⟩).1 ↔ detected) ∧
      (isError (packerUnpackPtr (f.set (16 + 2) 3 ++ []) ⟨[], 0, 0, ⟨none, 0, 0, 0⟩⟩).1 ↔ detected) :=
  corrupted_iff (ascii "a") [] 7 [1, 2] .new (by decide) (by decide +kernel) (by decide) 2
    (by decide) 3 (by decide +kernel) [] ⟨[], 0, 0, .new⟩ ⟨[], 0, 0, ⟨none, 0, 0, 0⟩⟩

/-- with one 0 as data the checksum is 0, and any other byte in its place is accepted -/
theorem zero_undetected : ¬ ∀ (url tail : Bytes) (seq : UInt32) (data : Bytes) (b : AutoBuffer),
    url.length ≤ 128 → (∀ c ∈ url, c ≠ 0) → 16 + url.length + data.length ≤ 1024 * 1024 →
    ∀ i, (hi : i < (url ++ data).length) → ∀ c, c ≠ (url ++ data)[i] → ∀ out,
      isError (packerUnpack
        ((written b (packerPack (url ++ 0 :: tail) seq data b true)).set (16 + i) c) out).1 := by
  intro hall
  have h := (hall [] [] 0 [0] .new (by decide) (fun c hc => absurd hc (List.not_mem_nil)) (by decide)
    0 (by decide) 1 (by decide) ⟨[], 0, 0, .new⟩).1
  rw [pack_written] at h
  refine h ?_
  rw [(packerUnpack_code _ _).1]
  decide +kernel

end Pack
