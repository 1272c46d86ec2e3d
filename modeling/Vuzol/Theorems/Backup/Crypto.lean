import Vuzol.Theorems.Backup.Framing

/-! What the reader of a blob yields: from the written bytes the plaintext, and under an ideal cipher nothing else
    from any bytes at all. -/

namespace Vuzol.Backup

open Vuzol.Lib

section Reading

variable {handle handle' : Handle} {n : Nat} {what : String} {b rest : Bytes}

theorem streamReadMax_pos : 0 < streamReadMax := by decide

theorem readExact_ok (h : readExact handle n what = .ok (b, handle')) :
    handle.rest = b ++ handle'.rest ∧ b.length = n := by
  simp only [readExact, bind_eq_ok, raiseIf_eq_ok, Nat.not_lt] at h
  obtain ⟨-, hlen, h⟩ := h
  cases h
  obtain ⟨hfst, hsnd⟩ := Handle.fill_eq streamReadMax_pos handle n
  rw [hfst] at hlen ⊢
  rw [hsnd]
  rw [List.length_take] at hlen ⊢
  exact ⟨(List.take_append_drop n handle.rest).symm, by omega⟩

theorem fill_append (hrest : handle.rest = b ++ rest) (hlen : b.length = n) :
    (handle.fill streamReadMax n).1 = b ∧ (handle.fill streamReadMax n).2.rest = rest := by
  obtain ⟨hfst, hsnd⟩ := Handle.fill_eq streamReadMax_pos handle n
  rw [hfst, hsnd, hrest, ← hlen, List.take_left, List.drop_left]
  exact ⟨rfl, rfl⟩

theorem readExact_append (what : String) (hrest : handle.rest = b ++ rest) (hlen : b.length = n) :
    ∃ handle', readExact handle n what = .ok (b, handle') ∧ handle'.rest = rest := by
  obtain ⟨hfst, hsnd⟩ := fill_append hrest hlen
  refine ⟨(handle.fill streamReadMax n).2, ?_, hsnd⟩
  simp only [readExact]
  rw [hfst, raiseIf_of_not (by omega), ok_bind]

end Reading

section Header

variable {label : Label} {handle handle' : Handle} {name : String} {maxLen : Nat} {tooLong : String} {rest : Bytes}

theorem readName_ok (h : readName handle maxLen tooLong = .ok (name, handle')) :
    handle.rest = UInt8.ofNat (utf8 name).length :: (utf8 name ++ handle'.rest) := by
  simp only [readName, bind_eq_ok] at h
  obtain ⟨⟨lenByte, handle1⟩, hlenByte, -, -, ⟨raw, handle2⟩, hraw, h⟩ := h
  obtain ⟨hrest, hone⟩ := readExact_ok hlenByte
  obtain ⟨hrest1, hlen⟩ := readExact_ok hraw
  cases hname : decodeUtf8 raw with
  | none =>
    simp only [hname] at h
    cases h
  | some name' =>
    simp only [hname] at h
    cases h
    have hbyte : [UInt8.ofNat (unpackBE lenByte)] = lenByte := by
      have hpack := packBE_unpackBE lenByte
      rwa [hone] at hpack
    rw [hrest, hrest1, utf8_of_decodeUtf8 hname, hlen]
    exact congrArg (· ++ (raw ++ handle'.rest)) hbyte.symm

theorem readName_append (tooLong : String) (hmax : (utf8 name).length ≤ maxLen) (hsmall : maxLen < 256)
    (hrest : handle.rest = UInt8.ofNat (utf8 name).length :: (utf8 name ++ rest)) :
    ∃ handle', readName handle maxLen tooLong = .ok (name, handle') ∧ handle'.rest = rest := by
  have hunpack : unpackBE [UInt8.ofNat (utf8 name).length] = (utf8 name).length := by
    have hpack := unpackBE_packBE (w := 1) (n := (utf8 name).length) (by omega)
    simpa [packBE] using hpack
  obtain ⟨handle1, hlenByte, hrest1⟩ := readExact_append "blob header" (n := 1)
    (b := [UInt8.ofNat (utf8 name).length]) hrest rfl
  obtain ⟨handle2, hraw, hrest2⟩ := readExact_append "blob header" hrest1 rfl
  refine ⟨handle2, ?_, hrest2⟩
  simp only [readName, hlenByte, ok_bind, hunpack, hraw, decodeUtf8_utf8]
  rw [raiseIf_of_not (by omega), ok_bind]

def headerFront (label : Label) : Bytes :=
  (blobMagic ++ [blobHeaderVersion, 0x00] ++ label.runId.bytes) ++
    (UInt8.ofNat (utf8 label.component).length :: (utf8 label.component ++
      (UInt8.ofNat (utf8 label.fmt).length :: (utf8 label.fmt ++ packBE 4 chunkPlaintextMax))))

theorem blobHeader_eq : blobHeader label = headerFront label ++ packBE 8 0 := by
  simp only [blobHeader, headerFront, List.append_assoc, List.cons_append, List.nil_append]

theorem length_blobMagic : blobMagic.length = 8 := by decide

theorem fixedFields_eq {pre : Bytes} {version flags : UInt8} (hlen : pre.length = 26) (hversion : pre[8]? = some version)
    (hflags : pre[9]? = some flags) : pre = pre.take 8 ++ [version, flags] ++ (pre.drop 10).take 16 := by
  obtain ⟨h8, rfl⟩ := List.getElem?_eq_some_iff.mp hversion
  obtain ⟨h9, rfl⟩ := List.getElem?_eq_some_iff.mp hflags
  have hdrop : pre.drop 8 = pre[8] :: pre[9] :: pre.drop 10 := by
    rw [List.drop_eq_getElem_cons h8, List.drop_eq_getElem_cons h9]
  have hid : (pre.drop 10).take 16 = pre.drop 10 := List.take_of_length_le (by rw [List.length_drop, hlen])
  rw [hid, List.append_assoc]
  conv_lhs => rw [← List.take_append_drop 8 pre, hdrop]
  rfl

theorem fixedFields_of (runId : RunId) (version flags : UInt8) : let pre := blobMagic ++ [version, flags] ++ runId.bytes
    pre.take 8 = blobMagic ∧ pre[8]? = some version ∧ pre[9]? = some flags ∧ (pre.drop 10).take 16 = runId.bytes := by
  intro pre
  have hpre : pre = blobMagic ++ ([version, flags] ++ runId.bytes) := List.append_assoc ..
  have hdrop : pre.drop 8 = version :: flags :: runId.bytes := by
    rw [hpre, ← length_blobMagic, List.drop_left]
    rfl
  have h8 : pre[8]? = (pre.drop 8)[0]? := (List.getElem?_drop (i := 8) (j := 0)).symm
  have h9 : pre[9]? = (pre.drop 8)[1]? := (List.getElem?_drop (i := 8) (j := 1)).symm
  have h10 : pre.drop 10 = (pre.drop 8).drop 2 := by rw [List.drop_drop]
  refine ⟨by rw [hpre, ← length_blobMagic, List.take_left], by rw [h8, hdrop]; rfl, by rw [h9, hdrop]; rfl, ?_⟩
  rw [h10, hdrop]
  exact List.take_of_length_le (Nat.le_of_eq runId.length_eq)

theorem parseBlobHeader_ok (h : parseBlobHeader handle label = .ok handle') :
    ∃ reserved : Bytes, reserved.length = 8 ∧ handle.rest = headerFront label ++ (reserved ++ handle'.rest) := by
  simp only [parseBlobHeader, bind_eq_ok, raiseIf_eq_ok, not_or, Decidable.not_not] at h
  obtain ⟨⟨pre, h1⟩, hpre, -, hmagic, -, ⟨hversion, hflags⟩, -, hrun, ⟨c, h2⟩, hc, ⟨f, h3⟩, hf, -, ⟨rfl, rfl⟩,
    ⟨tail, h4⟩, htail, -, hmax, h⟩ := h
  cases h
  obtain ⟨hrest, hprelen⟩ := readExact_ok hpre
  obtain ⟨hrest3, htaillen⟩ := readExact_ok htail
  have hpre : pre = blobMagic ++ [blobHeaderVersion, 0x00] ++ label.runId.bytes := by
    have hfields := fixedFields_eq hprelen hversion hflags
    rwa [hmagic, hrun] at hfields
  have htake : tail.take 4 = packBE 4 chunkPlaintextMax := by
    have hpack := packBE_unpackBE (tail.take 4)
    rw [hmax, List.length_take, htaillen] at hpack
    exact hpack.symm
  refine ⟨tail.drop 4, by rw [List.length_drop, htaillen], ?_⟩
  rw [hrest, hpre, readName_ok hc, readName_ok hf, hrest3]
  conv_lhs => rw [← List.take_append_drop 4 tail, htake]
  simp only [headerFront, List.append_assoc, List.cons_append]

theorem parseBlobHeader_append (A : label.Accepted) {reserved : Bytes} (hreserved : reserved.length = 8)
    (hrest : handle.rest = headerFront label ++ (reserved ++ rest)) :
    ∃ handle', parseBlobHeader handle label = .ok handle' ∧ handle'.rest = rest := by
  have hlen : (blobMagic ++ [blobHeaderVersion, 0x00] ++ label.runId.bytes).length = 26 := by
    rw [List.length_append, List.length_append, length_blobMagic, label.runId.length_eq]
    rfl
  rw [headerFront, List.append_assoc] at hrest
  obtain ⟨h1, hpre, hrest1⟩ := readExact_append "blob header" hrest hlen
  rw [List.cons_append, List.append_assoc] at hrest1
  obtain ⟨h2, hc, hrest2⟩ := readName_append "blob component name too long" A.component (by decide) hrest1
  rw [List.cons_append, List.append_assoc] at hrest2
  obtain ⟨h3, hf, hrest3⟩ := readName_append "blob format name too long" A.fmt (by decide) hrest2
  rw [← List.append_assoc] at hrest3
  obtain ⟨h4, htail, hrest4⟩ := readExact_append "blob header" (n := 12) hrest3
    (by rw [List.length_append, length_packBE, hreserved])
  refine ⟨h4, ?_, hrest4⟩
  obtain ⟨hmagic, hversion, hflags, hrun⟩ := fixedFields_of label.runId blobHeaderVersion 0x00
  have hmax : unpackBE ((packBE 4 chunkPlaintextMax ++ reserved).take 4) = chunkPlaintextMax := by
    rw [List.take_left' (length_packBE 4 _), unpackBE_packBE (by decide)]
  simp only [parseBlobHeader, hpre, hc, hf, htail, ok_bind, hmagic, hversion, hflags, hrun, hmax, ne_eq,
    not_true_eq_false, or_self, raiseIf, if_false]

end Header

structure Aead.Opens (aead : Aead) (label : Label) (f : Frame) : Prop where
  decrypt_encrypt : aead.decrypt f.nonce (aead.encrypt f.nonce f.plain (f.aad label)) (f.aad label) = some f.plain
  length_encrypt : (aead.encrypt f.nonce f.plain (f.aad label)).length = f.plain.length + tagLen

theorem Aead.Correct.opens {aead : Aead} (C : aead.Correct) (label : Label) (f : Frame) : aead.Opens label f :=
  ⟨C.decrypt_encrypt _ _ _, C.length_encrypt _ _ _⟩

section Chunk

variable {aead : Aead} {label : Label} {handle handle' : Handle} {i plainLen : Nat} {plain rest : Bytes}

theorem decryptChunk_ok (h : decryptChunk aead label handle i = .ok (plain, plainLen, handle')) :
    plain.length = plainLen ∧ plain.length ≤ chunkPlaintextMax ∧ i < maxChunks ∧
      ∃ ct, ct.length = plain.length + tagLen ∧
        aead.decrypt (Frame.nonce ⟨i, plain⟩) ct (Frame.aad label ⟨i, plain⟩) = some plain ∧
        handle.rest = packBE 4 plain.length ++ (ct ++ handle'.rest) := by
  simp only [decryptChunk, bind_eq_ok, raiseIf_eq_ok, Nat.not_lt] at h
  obtain ⟨-, -, -, hfour, -, hmax, ⟨ct, h1⟩, hct, nonce, hnonce, h⟩ := h
  obtain ⟨hlt, rfl⟩ := chunkNonce_eq_ok.mp hnonce
  obtain ⟨hfst, hsnd⟩ := Handle.fill_eq streamReadMax_pos handle 4
  obtain ⟨hrest, hctlen⟩ := readExact_ok hct
  rw [hsnd] at hrest
  rw [hfst] at h hfour hctlen hmax
  have hpack := packBE_unpackBE (handle.rest.take 4)
  have hlen : (handle.rest.take 4).length = 4 := by
    rw [List.length_take] at hfour ⊢
    omega
  rw [hlen] at hpack
  split at h
  · cases h
  rename_i plain' hdec
  simp only [bind_eq_ok, raiseIf_eq_ok, Decidable.not_not] at h
  obtain ⟨-, hplain, h⟩ := h
  cases h
  refine ⟨hplain, by rw [hplain]; exact hmax, hlt, ct, by rw [hplain, hctlen], ?_, ?_⟩
  · rw [Frame.nonce, Frame.aad, hplain]
    exact hdec
  · rw [hplain, hpack, ← hrest, List.take_append_drop]

theorem decryptChunk_append (hopens : aead.Opens label ⟨i, plain⟩) (hi : i < maxChunks) (hmax : plain.length ≤ chunkPlaintextMax)
    (hrest : handle.rest = Frame.record aead label ⟨i, plain⟩ ++ rest) :
    ∃ handle', decryptChunk aead label handle i = .ok (plain, plain.length, handle') ∧ handle'.rest = rest := by
  rw [Frame.record, List.append_assoc] at hrest
  obtain ⟨hfst, hsnd⟩ := fill_append hrest (length_packBE 4 plain.length)
  obtain ⟨h1, hct, hrest1⟩ := readExact_append "chunk ciphertext" hsnd hopens.length_encrypt
  refine ⟨h1, ?_, hrest1⟩
  have hnonce := chunkNonce_eq_ok.mpr ⟨hi, rfl⟩
  have hunpack : unpackBE (packBE 4 plain.length) = plain.length :=
    unpackBE_packBE (Nat.lt_of_le_of_lt hmax (by decide))
  have hne : packBE 4 plain.length ≠ [] := by
    intro hnil
    have hfour := length_packBE 4 plain.length
    rw [hnil] at hfour
    cases hfour
  simp only [decryptChunk, hfst]
  rw [raiseIf_of_not hne, ok_bind, length_packBE, raiseIf_of_not (by decide), ok_bind, hunpack,
    raiseIf_of_not (Nat.not_lt.mpr hmax), ok_bind, hct, ok_bind, hnonce, ok_bind]
  erw [hopens.decrypt_encrypt]
  dsimp only
  rw [raiseIf_of_not (by simp), ok_bind]

end Chunk

section RoundTrip

variable {aead : Aead} {label : Label}

theorem decryptChunks_body {i : Nat} {plain : Bytes} {handle : Handle}
    (hopens : ∀ f ∈ frames i plain, aead.Opens label f)
    (hrest : handle.rest = body aead label i plain) (hbound : i + plain.length / chunkPlaintextMax < maxChunks) :
    decryptChunks aead label handle i = { yielded := (frames i plain).map Frame.plain } := by
  induction i, plain using frames_induction generalizing handle with
  | full i plain hfull ih =>
    have hdiv : plain.length / chunkPlaintextMax = (plain.length - chunkPlaintextMax) / chunkPlaintextMax + 1 :=
      Nat.div_eq_sub_div chunkPlaintextMax_pos hfull
    have hchunk : (plain.take chunkPlaintextMax).length = chunkPlaintextMax := by
      rw [List.length_take, Nat.min_eq_left hfull]
    have hnext : i + 1 + (plain.drop chunkPlaintextMax).length / chunkPlaintextMax < maxChunks := by
      rw [List.length_drop]
      omega
    have hlimit : i + 1 < maxChunks := Nat.lt_of_le_of_lt (Nat.le_add_right _ _) hnext
    rw [body_full hfull] at hrest
    rw [frames_full hfull] at hopens
    obtain ⟨handle', hok, hrest'⟩ := decryptChunk_append (hopens _ (List.mem_cons_self ..)) (by omega)
      (Nat.le_of_eq hchunk) hrest
    have hlater := ih (fun f hf => hopens f (List.mem_cons_of_mem _ hf)) hrest' hnext
    rw [decryptChunks, hok]
    dsimp only
    rw [hchunk, if_neg (Nat.lt_irrefl _), if_neg (by omega), hlater, frames_full hfull]
    rfl
  | short i plain hshort =>
    rw [body_short hshort, ← List.append_nil (Frame.record _ _ _)] at hrest
    rw [frames_short hshort] at hopens
    obtain ⟨handle', hok, hrest'⟩ := decryptChunk_append (hopens _ (List.mem_singleton_self _))
      (Nat.lt_of_le_of_lt (Nat.le_add_right _ _) hbound) (Nat.le_of_lt hshort) hrest
    have hnil : (handle'.read 1).1 = [] := by
      simp only [Handle.read, hrest', List.take_nil]
    rw [decryptChunks, hok]
    dsimp only
    rw [if_pos hshort, if_pos hnil, frames_short hshort]
    rfl

theorem flatten_frames (i : Nat) (plain : Bytes) : ((frames i plain).map Frame.plain).flatten = plain := by
  induction i, plain using frames_induction with
  | full i plain hfull ih =>
    rw [frames_full hfull, List.map_cons, List.flatten_cons, ih, List.take_append_drop]
  | short i plain hshort => rw [frames_short hshort, List.map_singleton, List.flatten_singleton]

variable {aes : Bytes → Aead} {sha256 : Bytes → String} {dek : Bytes} {pieces : List Bytes} {blob : Bytes}
  {result : EncryptResult}

theorem decryptBlob_written (hopens : ∀ f ∈ frames 0 pieces.flatten, (aes dek).Opens label f)
    (hblob : encryptBlobStream aes sha256 dek label pieces = .ok (blob, result)) (cuts : Nat → Nat) :
    decryptBlobStreamFromHandle (aes dek) label { rest := blob, cuts } =
      { yielded := (frames 0 pieces.flatten).map Frame.plain } := by
  obtain ⟨rfl, hbound, A, -⟩ := encryptBlobStream_ok hblob
  have hrest : (Handle.mk (blobHeader label ++ body (aes dek) label 0 pieces.flatten) cuts).rest =
      headerFront label ++ (packBE 8 0 ++ body (aes dek) label 0 pieces.flatten) := by
    rw [blobHeader_eq, List.append_assoc]
  obtain ⟨handle', hok, hrest'⟩ := parseBlobHeader_append A (length_packBE 8 0) hrest
  rw [decryptBlobStreamFromHandle, hok]
  exact decryptChunks_body hopens hrest' (by omega)

/-- What was written is read back without error, whatever the pieces and whatever the cuts of the reads. -/
theorem blob_round_trip (C : (aes dek).Correct)
    (hblob : encryptBlobStream aes sha256 dek label pieces = .ok (blob, result)) (cuts : Nat → Nat) :
    (decryptBlobStreamFromHandle (aes dek) label { rest := blob, cuts }).error = none ∧
      (decryptBlobStreamFromHandle (aes dek) label { rest := blob, cuts }).yielded.flatten = pieces.flatten := by
  rw [decryptBlob_written (fun f _ => C.opens label f) hblob cuts]
  exact ⟨rfl, flatten_frames 0 pieces.flatten⟩

def emptyTag : Bytes := [147, 122, 92, 242, 39, 39, 69, 183, 220, 42, 157, 27, 152, 84, 234, 50]

def tagged : Aead where
  encrypt _ plain _ := plain ++ emptyTag
  decrypt _ ct _ := if ct.drop (ct.length - tagLen) = emptyTag then some (ct.take (ct.length - tagLen)) else none

def zeroRun : Label where
  runId := { bytes := List.replicate 16 0, length_eq := rfl }
  component := "postgres"
  fmt := "pg_custom"

def zeroDek : Bytes := List.replicate 32 0

def shortPieces : List Bytes := [[1, 2], [], [3]]

def shortBlob : Bytes := blobHeader zeroRun ++ (packBE 4 3 ++ ([1, 2, 3] ++ emptyTag))

theorem tagged_correct : tagged.Correct where
  decrypt_encrypt _ plain _ := by
    have hlen : (plain ++ emptyTag).length - tagLen = plain.length := by
      rw [List.length_append]
      exact Nat.add_sub_cancel _ tagLen
    simp only [tagged]
    rw [hlen, List.drop_left, if_pos rfl, List.take_left]
  length_encrypt _ plain _ := List.length_append

theorem blob_round_trip_pieces :
    (decryptBlobStreamFromHandle tagged zeroRun { rest := shortBlob, cuts := fun n => n % 3 }).error = none ∧
      (decryptBlobStreamFromHandle tagged zeroRun { rest := shortBlob, cuts := fun n => n % 3 }).yielded.flatten =
        [1, 2, 3] :=
  @blob_round_trip zeroRun (fun _ => tagged) (fun _ => "") zeroDek shortPieces shortBlob _ tagged_correct rfl _

end RoundTrip

section Integrity

variable {aead : Aead} {label : Label}

/-- An ideal cipher under whose key the frames `fs` were sealed: nothing else opens. -/
def Aead.OpensOnly (aead : Aead) (label : Label) (fs : List Frame) : Prop :=
  ∀ nonce ct aad plain, aead.decrypt nonce ct aad = some plain →
    ∃ f ∈ fs, nonce = f.nonce ∧ aad = f.aad label ∧ plain = f.plain ∧ ct = aead.encrypt nonce plain aad

theorem Frame.nonce_inj {f g : Frame} (hf : f.index < maxChunks) (hg : g.index < maxChunks) (h : f.nonce = g.nonce) :
    f.index = g.index :=
  packBE_inj (Nat.lt_trans hf (by decide)) (Nat.lt_trans hg (by decide)) (List.append_cancel_left h)

theorem decryptChunk_sealed {fs : List Frame} (ideal : aead.OpensOnly label fs) (hlt : ∀ f ∈ fs, f.index < maxChunks)
    {i plainLen : Nat} {plain : Bytes} {handle handle' : Handle}
    (h : decryptChunk aead label handle i = .ok (plain, plainLen, handle')) :
    ⟨i, plain⟩ ∈ fs ∧ plain.length = plainLen ∧
      handle.rest = Frame.record aead label ⟨i, plain⟩ ++ handle'.rest := by
  obtain ⟨hlen, -, hi, ct, -, hdec, hrest⟩ := decryptChunk_ok h
  obtain ⟨f, hf, hnonce, -, hplain, hct⟩ := ideal _ _ _ _ hdec
  have hindex : i = f.index := Frame.nonce_inj (f := ⟨i, plain⟩) hi (hlt f hf) hnonce
  refine ⟨?_, hlen, ?_⟩
  · rw [hindex, hplain]
    exact hf
  · rw [hrest, hct, Frame.record, List.append_assoc]

/-- A reading that ends well ends at a short chunk with nothing behind it, or goes on behind a full one. -/
theorem decryptChunks_cases {i : Nat} {handle : Handle} (h : (decryptChunks aead label handle i).error = none) :
    ∃ plain plainLen handle', decryptChunk aead label handle i = .ok (plain, plainLen, handle') ∧
      ((plainLen < chunkPlaintextMax ∧ (handle'.read 1).1 = [] ∧
          (decryptChunks aead label handle i).yielded = [plain]) ∨
        (chunkPlaintextMax ≤ plainLen ∧ (decryptChunks aead label handle' (i + 1)).error = none ∧
          (decryptChunks aead label handle i).yielded =
            plain :: (decryptChunks aead label handle' (i + 1)).yielded)) := by
  rw [decryptChunks] at h ⊢
  cases hchunk : decryptChunk aead label handle i with
  | error e =>
    rw [hchunk] at h
    cases h
  | ok next =>
    obtain ⟨plain, plainLen, handle'⟩ := next
    rw [hchunk] at h
    refine ⟨plain, plainLen, handle', rfl, ?_⟩
    dsimp only at h ⊢
    by_cases hlast : plainLen < chunkPlaintextMax
    · rw [if_pos hlast] at h ⊢
      by_cases hnil : (handle'.read 1).1 = []
      · rw [if_pos hnil]
        exact Or.inl ⟨hlast, hnil, rfl⟩
      · rw [if_neg hnil] at h
        cases h
    · rw [if_neg hlast] at h ⊢
      by_cases hlimit : maxChunks ≤ i + 1
      · rw [if_pos hlimit] at h
        cases h
      · rw [if_neg hlimit] at h ⊢
        exact Or.inr ⟨Nat.not_lt.mp hlast, h, rfl⟩

theorem decryptChunks_sealed {fs : List Frame} (ideal : aead.OpensOnly label fs) (hlt : ∀ f ∈ fs, f.index < maxChunks)
    {i : Nat} {plain : Bytes} {handle : Handle} (hfs : ∀ f ∈ fs, i ≤ f.index → f ∈ frames i plain)
    (h : (decryptChunks aead label handle i).error = none) :
    (decryptChunks aead label handle i).yielded.flatten = plain ∧ handle.rest = body aead label i plain := by
  induction i, plain using frames_induction generalizing handle with
  | full i plain hfull ih =>
    obtain ⟨plain', plainLen, handle', hok, hcases⟩ := decryptChunks_cases h
    obtain ⟨hmem, hlen, hrest⟩ := decryptChunk_sealed ideal hlt hok
    have hframe := hfs _ hmem (Nat.le_refl i)
    rw [frames_full hfull, List.mem_cons] at hframe
    have hplain : plain' = plain.take chunkPlaintextMax := by
      rcases hframe with heq | hlater
      · exact congrArg Frame.plain heq
      · exact absurd (frame_bounds hlater).2.1 (Nat.not_succ_le_self i)
    have hchunk : plainLen = chunkPlaintextMax := by
      rw [← hlen, hplain, List.length_take, Nat.min_eq_left hfull]
    rcases hcases with ⟨hshort, -⟩ | ⟨-, hnext, hyield⟩
    · omega
    have hfs' : ∀ f ∈ fs, i + 1 ≤ f.index → f ∈ frames (i + 1) (plain.drop chunkPlaintextMax) := by
      intro f hf hle
      have hmemf := hfs f hf (by omega)
      rw [frames_full hfull, List.mem_cons] at hmemf
      rcases hmemf with rfl | hlater
      · exact absurd hle (Nat.not_succ_le_self i)
      · exact hlater
    obtain ⟨hflat, hbody⟩ := ih hfs' hnext
    rw [hyield, List.flatten_cons, hflat, body_full hfull, hrest, hbody, hplain, List.take_append_drop]
    exact ⟨rfl, rfl⟩
  | short i plain hshort =>
    obtain ⟨plain', plainLen, handle', hok, hcases⟩ := decryptChunks_cases h
    obtain ⟨hmem, hlen, hrest⟩ := decryptChunk_sealed ideal hlt hok
    have hframe := hfs _ hmem (Nat.le_refl i)
    rw [frames_short hshort, List.mem_singleton] at hframe
    have hplain : plain' = plain := congrArg Frame.plain hframe
    rw [hplain] at hlen hrest
    rcases hcases with ⟨-, hnil, hyield⟩ | ⟨hfull, -⟩
    · have hend : handle'.rest = [] := Handle.read_eq_nil Nat.one_pos hnil
      rw [hyield, hplain, List.flatten_singleton, body_short hshort, hrest, hend, List.append_nil]
      exact ⟨rfl, rfl⟩
    · omega

variable {aes : Bytes → Aead} {sha256 : Bytes → String} {dek : Bytes} {pieces : List Bytes} {blob : Bytes}
  {result : EncryptResult}

/-- Bytes that are read to the end without error are the blob itself but for the reserved bytes of the header, and what
    was yielded is its plaintext. -/
theorem blob_integrity (hblob : encryptBlobStream aes sha256 dek label pieces = .ok (blob, result))
    (ideal : (aes dek).OpensOnly label (frames 0 pieces.flatten)) (handle : Handle)
    (h : (decryptBlobStreamFromHandle (aes dek) label handle).error = none) :
    (decryptBlobStreamFromHandle (aes dek) label handle).yielded.flatten = pieces.flatten ∧
      ∃ front reserved reserved' rest : Bytes, reserved.length = 8 ∧ reserved'.length = 8 ∧
        blob = front ++ reserved ++ rest ∧ handle.rest = front ++ reserved' ++ rest := by
  obtain ⟨rfl, hbound, -⟩ := encryptBlobStream_ok hblob
  have hlt : ∀ f ∈ frames 0 pieces.flatten, f.index < maxChunks := by
    intro f hf
    have hhigh := (frame_bounds hf).2.2
    omega
  rw [decryptBlobStreamFromHandle] at h ⊢
  cases hheader : parseBlobHeader handle label with
  | error e =>
    rw [hheader] at h
    cases h
  | ok handle' =>
    rw [hheader] at h
    obtain ⟨reserved, hreserved, hrest⟩ := parseBlobHeader_ok hheader
    obtain ⟨hflat, hbody⟩ := decryptChunks_sealed ideal hlt (fun f hf _ => hf) h
    refine ⟨hflat, headerFront label, packBE 8 0, reserved, body (aes dek) label 0 pieces.flatten,
      length_packBE 8 0, hreserved, ?_, ?_⟩
    · rw [blobHeader_eq]
    · rw [hrest, hbody, List.append_assoc]

def shortFrame : Frame := ⟨0, [1, 2, 3]⟩

def sealedShort : Aead where
  encrypt _ plain _ := plain ++ emptyTag
  decrypt nonce ct aad :=
    if nonce = shortFrame.nonce ∧ ct = shortFrame.plain ++ emptyTag ∧ aad = shortFrame.aad zeroRun then some shortFrame.plain
    else none

theorem frames_shortPieces : frames 0 shortPieces.flatten = [shortFrame] :=
  @frames_short shortPieces.flatten (by decide) 0

theorem sealedShort_opens : ∀ f ∈ frames 0 shortPieces.flatten, sealedShort.Opens zeroRun f := by
  intro f hf
  rw [frames_shortPieces, List.mem_singleton] at hf
  rw [hf]
  refine ⟨?_, rfl⟩
  simp only [sealedShort, and_self, if_true]

theorem sealedShort_opensOnly : sealedShort.OpensOnly zeroRun (frames 0 shortPieces.flatten) := by
  intro nonce ct aad plain h
  simp only [sealedShort] at h
  split at h
  · rename_i hsealed
    obtain ⟨rfl, rfl, rfl⟩ := hsealed
    cases h
    refine ⟨shortFrame, ?_, rfl, rfl, rfl, rfl⟩
    rw [frames_shortPieces]
    exact List.mem_singleton_self _
  · cases h

theorem blob_integrity_pieces :
    (decryptBlobStreamFromHandle sealedShort zeroRun { rest := shortBlob, cuts := fun n => n % 3 }).yielded.flatten =
      [1, 2, 3] :=
  (@blob_integrity zeroRun (fun _ => sealedShort) (fun _ => "") zeroDek shortPieces shortBlob _ rfl sealedShort_opensOnly
    { rest := shortBlob, cuts := fun n => n % 3 }
    (congrArg Decrypted.error (@decryptBlob_written zeroRun (fun _ => sealedShort) (fun _ => "") zeroDek shortPieces shortBlob _
      sealedShort_opens rfl fun n => n % 3))).1

end Integrity

end Vuzol.Backup
