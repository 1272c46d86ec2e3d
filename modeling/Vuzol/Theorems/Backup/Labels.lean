import Vuzol.Theorems.Backup.Crypto

/-! Relabelling a blob. Its header is plain text, so what binds the frames to a component and a format is their
    associated data alone. -/

namespace Vuzol.Backup

open Vuzol.Lib

def Label.names (label : Label) : Bytes := utf8 label.component ++ utf8 label.fmt

theorem blobAad_congr {label label' : Label} (hrun : label'.runId = label.runId) (hnames : label'.names = label.names) :
    blobAad label' = blobAad label := by
  funext i n
  simp only [Label.names] at hnames
  simp only [blobAad, hrun, List.append_assoc]
  rw [← List.append_assoc (utf8 label'.component), hnames, List.append_assoc]

theorem names_of_blobAad {label label' : Label} {i n j m : Nat} (h : blobAad label' i n = blobAad label j m) :
    label'.names = label.names := by
  have hwords : (packBE 8 i ++ packBE 8 n).length = (packBE 8 j ++ packBE 8 m).length := by
    rw [List.length_append, List.length_append, length_packBE, length_packBE, length_packBE, length_packBE]
  simp only [blobAad] at h
  rw [List.append_assoc _ (packBE 8 i), List.append_assoc _ (packBE 8 j)] at h
  have hfront := (List.append_inj' h hwords).1
  rw [List.append_assoc, List.append_assoc, List.append_assoc, List.append_assoc] at hfront
  have hrunLen : (label'.runId.bytes).length = (label.runId.bytes).length := by
    rw [label'.runId.length_eq, label.runId.length_eq]
  have hbehind := List.append_cancel_left (List.append_cancel_left hfront)
  exact (List.append_inj hbehind hrunLen).2

/-- What `encrypt_blob_stream` asks of the names. -/
structure Label.Admissible (label : Label) : Prop extends label.Accepted where
  component_ne : label.component ≠ ""
  fmt_ne : label.fmt ≠ ""

/-- An ideal cipher: what was sealed under its key opens again, nothing else does, and two frames have one ciphertext
    only where they have the same associated data. -/
structure Aead.Ideal (aead : Aead) (sealed : List (Label × Frame)) : Prop where
  opens : ∀ s ∈ sealed, aead.Opens s.1 s.2
  opensOnly : ∀ nonce ct aad plain, aead.decrypt nonce ct aad = some plain →
    ∃ s ∈ sealed, aad = s.2.aad s.1 ∧ ct = aead.encrypt s.2.nonce s.2.plain (s.2.aad s.1)
  apart : ∀ s ∈ sealed, ∀ s' ∈ sealed,
    aead.encrypt s.2.nonce s.2.plain (s.2.aad s.1) = aead.encrypt s'.2.nonce s'.2.plain (s'.2.aad s'.1) →
      s.2.aad s.1 = s'.2.aad s'.1
  short : ∀ s ∈ sealed, s.2.plain.length ≤ chunkPlaintextMax

/-- Behind the header that a reader of `label'` reads stand frames that were sealed for `label`. -/
def SealedFor (aead : Aead) (sealed : List (Label × Frame)) (label label' : Label) (handle : Handle) : Prop :=
  ∀ handle', parseBlobHeader handle label' = .ok handle' →
    ∃ fs : List Frame, (∀ f ∈ fs, (label, f) ∈ sealed) ∧ handle'.rest = (fs.map (Frame.record aead label)).flatten

section Relabelled

variable {aead : Aead} {label label' : Label} {sealed : List (Label × Frame)}

theorem record_congr (hrun : label'.runId = label.runId) (hnames : label'.names = label.names) :
    Frame.record aead label' = Frame.record aead label := by
  funext f
  simp only [Frame.record, Frame.aad, blobAad_congr hrun hnames]

theorem Aead.Opens.congr (hrun : label'.runId = label.runId) (hnames : label'.names = label.names) {f : Frame}
    (h : aead.Opens label f) : aead.Opens label' f := by
  have haad : f.aad label' = f.aad label := by rw [Frame.aad, Frame.aad, blobAad_congr hrun hnames]
  exact ⟨by rw [haad]; exact h.decrypt_encrypt, by rw [haad]; exact h.length_encrypt⟩

theorem names_of_decryptChunk (ideal : aead.Ideal sealed) {fs : List Frame} (hfs : ∀ f ∈ fs, (label, f) ∈ sealed)
    {i plainLen : Nat} {plain : Bytes} {handle handle' : Handle}
    (hrest : handle.rest = (fs.map (Frame.record aead label)).flatten)
    (h : decryptChunk aead label' handle i = .ok (plain, plainLen, handle')) : label'.names = label.names := by
  obtain ⟨-, hmax, -, ct, hctlen, hdec, hbytes⟩ := decryptChunk_ok h
  cases fs with
  | nil =>
    have hfour := congrArg List.length (hrest.symm.trans hbytes)
    rw [List.length_append, length_packBE, List.map_nil, List.flatten_nil, List.length_nil] at hfour
    omega
  | cons f fs =>
    have hsealed := hfs f List.mem_cons_self
    rw [hrest, List.map_cons, List.flatten_cons, Frame.record, List.append_assoc] at hbytes
    obtain ⟨hhead, htail⟩ := List.append_inj hbytes (by rw [length_packBE, length_packBE])
    have hplain : f.plain.length = plain.length :=
      packBE_inj (Nat.lt_of_le_of_lt (ideal.short _ hsealed) (by decide)) (Nat.lt_of_le_of_lt hmax (by decide)) hhead
    have hct : aead.encrypt f.nonce f.plain (f.aad label) = ct :=
      (List.append_inj htail (by rw [(ideal.opens _ hsealed).length_encrypt, hctlen, hplain])).1
    obtain ⟨s, hs, haad, hs'⟩ := ideal.opensOnly _ _ _ _ hdec
    have hsame := ideal.apart _ hsealed s hs (hct.trans hs')
    exact names_of_blobAad (haad.trans hsame.symm)

variable {aes : Bytes → Aead} {sha256 : Bytes → String} {dek : Bytes} {pieces : List Bytes} {blob : Bytes}
  {result : EncryptResult}

theorem exists_relabelled (ideal : (aes dek).Ideal sealed)
    (hblob : encryptBlobStream aes sha256 dek label pieces = .ok (blob, result))
    (hsealed : ∀ f ∈ frames 0 pieces.flatten, (label, f) ∈ sealed)
    (hadmissible : label'.Admissible) (hrun : label'.runId = label.runId) (hnames : label'.names = label.names) :
    ∃ handle, SealedFor (aes dek) sealed label label' handle ∧
      (decryptBlobStreamFromHandle (aes dek) label' handle).error = none := by
  obtain ⟨-, hbound, -⟩ := encryptBlobStream_ok hblob
  let handle : Handle :=
    { rest := headerFront label' ++ (packBE 8 0 ++ body (aes dek) label 0 pieces.flatten), cuts := fun _ => 0 }
  obtain ⟨handle', hok, hrest⟩ : ∃ handle', parseBlobHeader handle label' = .ok handle' ∧ handle'.rest = _ :=
    parseBlobHeader_append hadmissible.toAccepted (length_packBE 8 0) rfl
  refine ⟨handle, fun handle'' hok' => ⟨frames 0 pieces.flatten, hsealed, ?_⟩, ?_⟩
  · rw [← Except.ok.inj (hok.symm.trans hok'), hrest]
    rfl
  · have hread := decryptChunks_body (i := 0) (fun f hf => (ideal.opens _ (hsealed f hf)).congr hrun hnames)
      (by rw [hrest, body, body, record_congr hrun hnames]) (by omega)
    rw [decryptBlobStreamFromHandle, hok]
    dsimp only
    rw [hread]

def Refuses (aead : Aead) (sealed : List (Label × Frame)) (label label' : Label) : Prop :=
  ∀ handle, SealedFor aead sealed label label' handle → (decryptBlobStreamFromHandle aead label' handle).error ≠ none

/-- Frames are refused under other names unless these, one behind the other, are the same bytes; and just then a blob whose
    frames were sealed can be read under them. -/
theorem blob_not_relabelled (ideal : (aes dek).Ideal sealed) :
    (label'.names ≠ label.names → Refuses (aes dek) sealed label label') ∧
    ∀ (sha256 : Bytes → String) (pieces : List Bytes) (blob : Bytes) (result : EncryptResult),
      label'.Admissible → label'.runId = label.runId → encryptBlobStream aes sha256 dek label pieces = .ok (blob, result) →
      (∀ f ∈ frames 0 pieces.flatten, (label, f) ∈ sealed) → Refuses (aes dek) sealed label label' →
        label'.names ≠ label.names := by
  constructor
  · intro hnames handle hfor hnone
    rw [decryptBlobStreamFromHandle] at hnone
    cases hheader : parseBlobHeader handle label' with
    | error e =>
      rw [hheader] at hnone
      cases hnone
    | ok handle' =>
      rw [hheader] at hnone
      obtain ⟨fs, hfs, hrest⟩ := hfor handle' hheader
      obtain ⟨plain, plainLen, handle'', hok, -⟩ := decryptChunks_cases hnone
      exact hnames (names_of_decryptChunk ideal hfs hrest hok)
  · intro sha256 pieces blob result hadmissible hrun hblob hsealed hrefused hnames
    obtain ⟨handle, hfor, hnone⟩ := exists_relabelled ideal hblob hsealed hadmissible hrun hnames
    exact hrefused handle hfor hnone

theorem sealedShort_ideal : sealedShort.Ideal [(zeroRun, shortFrame)] where
  opens s hs := by
    rw [List.mem_singleton.mp hs]
    exact sealedShort_opens _ (by rw [frames_shortPieces]; exact List.mem_singleton_self _)
  opensOnly nonce ct aad plain h := by
    obtain ⟨f, hf, rfl, rfl, rfl, rfl⟩ := sealedShort_opensOnly nonce ct aad plain h
    rw [frames_shortPieces, List.mem_singleton] at hf
    rw [hf]
    exact ⟨_, List.mem_singleton_self _, rfl, rfl⟩
  apart s hs s' hs' _ := by rw [List.mem_singleton.mp hs, List.mem_singleton.mp hs']
  short s hs := by
    rw [List.mem_singleton.mp hs]
    decide

def zeroRunAs (component fmt : String) : Label := { zeroRun with component, fmt }

theorem sealed_shortPieces : ∀ f ∈ frames 0 shortPieces.flatten, (zeroRun, f) ∈ [(zeroRun, shortFrame)] := by
  intro f hf
  rw [frames_shortPieces, List.mem_singleton] at hf
  rw [hf]
  exact List.mem_singleton_self _

theorem zeroRunAs_admissible : zeroRun.Admissible ∧ (zeroRunAs "postgresp" "g_custom").Admissible :=
  ⟨{ component := by decide, fmt := by decide, component_ne := by decide, fmt_ne := by decide },
    { component := by decide, fmt := by decide, component_ne := by decide, fmt_ne := by decide }⟩

theorem blob_not_relabelled_artifacts :
    Refuses sealedShort [(zeroRun, shortFrame)] zeroRun (zeroRunAs "artifacts" "tar") ∧
      ¬Refuses sealedShort [(zeroRun, shortFrame)] zeroRun (zeroRunAs "postgresp" "g_custom") :=
  have hlabels := fun label' => @blob_not_relabelled zeroRun label' [(zeroRun, shortFrame)] (fun _ => sealedShort) zeroDek
    sealedShort_ideal
  ⟨(hlabels _).1 (by decide), fun h => (hlabels _).2 (fun _ => "") shortPieces shortBlob _ zeroRunAs_admissible.2 rfl rfl
    sealed_shortPieces h (by decide)⟩

/-- The frames of `postgres` as `pg_custom` are read as a component `postgresp` in the format `g_custom`. -/
theorem blob_relabelled : ∃ label' handle, sealedShort.Ideal [(zeroRun, shortFrame)] ∧ zeroRun.Admissible ∧
    label'.Admissible ∧ label'.runId = zeroRun.runId ∧ (label'.component, label'.fmt) = ("postgresp", "g_custom") ∧
    (zeroRun.component, zeroRun.fmt) = ("postgres", "pg_custom") ∧
    SealedFor sealedShort [(zeroRun, shortFrame)] zeroRun label' handle ∧
    (decryptBlobStreamFromHandle sealedShort label' handle).error = none := by
  obtain ⟨handle, hfor, hnone⟩ := @exists_relabelled zeroRun (zeroRunAs "postgresp" "g_custom") [(zeroRun, shortFrame)]
    (fun _ => sealedShort) (fun _ => "") zeroDek shortPieces shortBlob _ sealedShort_ideal rfl sealed_shortPieces
    zeroRunAs_admissible.2 rfl (by decide)
  exact ⟨_, handle, sealedShort_ideal, zeroRunAs_admissible.1, zeroRunAs_admissible.2, rfl, rfl, rfl, hfor, hnone⟩

end Relabelled

end Vuzol.Backup
