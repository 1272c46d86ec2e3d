import Vuzol.Backup.Crypto

/-! The frames of a blob. A plaintext is cut into full chunks and one short chunk, which may be empty; the writer seals
    exactly these, whatever pieces it is fed, and the reader finds them again however its reads are cut. -/

namespace Vuzol.Backup

open Vuzol.Lib

variable {plain : Bytes}

theorem chunkPlaintextMax_pos : 0 < chunkPlaintextMax := by decide

structure Frame where
  index : Nat
  plain : Bytes

namespace Frame

def nonce (f : Frame) : Bytes := packBE 4 nonceDomain ++ packBE 8 f.index

def aad (label : Label) (f : Frame) : Bytes := blobAad label f.index f.plain.length

def record (aead : Aead) (label : Label) (f : Frame) : Bytes :=
  packBE 4 f.plain.length ++ aead.encrypt f.nonce f.plain (f.aad label)

end Frame

/-- The frames of a plaintext from index `i` on. -/
def frames (i : Nat) (plain : Bytes) : List Frame :=
  if chunkPlaintextMax ≤ plain.length then
    ⟨i, plain.take chunkPlaintextMax⟩ :: frames (i + 1) (plain.drop chunkPlaintextMax)
  else [⟨i, plain⟩]
termination_by plain.length
decreasing_by
  have hpos := chunkPlaintextMax_pos
  simp only [List.length_drop]
  omega

theorem frames_full (h : chunkPlaintextMax ≤ plain.length) (i : Nat) :
    frames i plain = ⟨i, plain.take chunkPlaintextMax⟩ :: frames (i + 1) (plain.drop chunkPlaintextMax) := by
  rw [frames, if_pos h]

theorem frames_short (h : plain.length < chunkPlaintextMax) (i : Nat) : frames i plain = [⟨i, plain⟩] := by
  rw [frames, if_neg (Nat.not_le.mpr h)]

theorem frames_induction {P : Nat → Bytes → Prop}
    (full : ∀ i plain, chunkPlaintextMax ≤ plain.length → P (i + 1) (plain.drop chunkPlaintextMax) → P i plain)
    (short : ∀ i plain, plain.length < chunkPlaintextMax → P i plain) (i : Nat) (plain : Bytes) : P i plain := by
  induction i, plain using frames.induct with
  | case1 i plain h ih => exact full i plain h ih
  | case2 i plain h => exact short i plain (Nat.not_le.mp h)

theorem frame_bounds {i : Nat} {plain : Bytes} {f : Frame} (h : f ∈ frames i plain) :
    f.plain.length ≤ chunkPlaintextMax ∧ i ≤ f.index ∧ f.index ≤ i + plain.length / chunkPlaintextMax := by
  induction i, plain using frames_induction with
  | full i plain hfull ih =>
    have hdiv : plain.length / chunkPlaintextMax = (plain.length - chunkPlaintextMax) / chunkPlaintextMax + 1 :=
      Nat.div_eq_sub_div chunkPlaintextMax_pos hfull
    rw [frames_full hfull, List.mem_cons] at h
    rcases h with rfl | h
    · exact ⟨by rw [List.length_take]; omega, Nat.le_refl _, Nat.le_add_right _ _⟩
    · obtain ⟨hlen, hlow, hhigh⟩ := ih h
      rw [List.length_drop] at hhigh
      exact ⟨hlen, by omega, by omega⟩
  | short i plain hshort =>
    rw [frames_short hshort, List.mem_singleton] at h
    rw [h]
    exact ⟨Nat.le_of_lt hshort, Nat.le_refl _, Nat.le_add_right _ _⟩

section Writing

variable {aead : Aead} {label : Label}

/-- The records of the frames from index `i` on. -/
def body (aead : Aead) (label : Label) (i : Nat) (plain : Bytes) : Bytes :=
  ((frames i plain).map (Frame.record aead label)).flatten

theorem body_full (h : chunkPlaintextMax ≤ plain.length) (i : Nat) :
    body aead label i plain =
      Frame.record aead label ⟨i, plain.take chunkPlaintextMax⟩ ++
        body aead label (i + 1) (plain.drop chunkPlaintextMax) := by
  rw [body, frames_full h, List.map_cons, List.flatten_cons, ← body]

theorem body_short (h : plain.length < chunkPlaintextMax) (i : Nat) :
    body aead label i plain = Frame.record aead label ⟨i, plain⟩ := by
  rw [body, frames_short h, List.map_singleton, List.flatten_singleton]

theorem chunkNonce_eq_ok {index : Nat} {nonce : Bytes} :
    chunkNonce index = .ok nonce ↔ index < maxChunks ∧ packBE 4 nonceDomain ++ packBE 8 index = nonce := by
  simp only [chunkNonce, bind_eq_ok, raiseIf_eq_ok, Nat.not_le, Except.ok.injEq, exists_and_left, exists_const]

theorem encryptChunk_ok {i : Nat} {record : Bytes} (h : encryptChunk aead label i plain = .ok record) :
    i < maxChunks ∧ record = Frame.record aead label ⟨i, plain⟩ := by
  simp only [encryptChunk, bind_eq_ok] at h
  obtain ⟨-, -, nonce, hnonce, h⟩ := h
  obtain ⟨hlt, rfl⟩ := chunkNonce_eq_ok.mp hnonce
  exact ⟨hlt, (Except.ok.inj h).symm⟩

/-- The writer's state after it was fed `plain`: what it wrote is a beginning of the blob of any longer plaintext, and
    the rest of `plain` is in the buffer. -/
structure Fed (aead : Aead) (label : Label) (w : Writer) (plain : Bytes) : Prop where
  written : ∀ more, w.out.written ++ body aead label w.chunkIndex (w.buffer ++ more) =
    blobHeader label ++ body aead label 0 (plain ++ more)
  count : w.chunkIndex * chunkPlaintextMax + w.buffer.length = plain.length
  bound : w.chunkIndex < maxChunks
  digested : w.out.digested = w.out.written
  size : w.out.size = w.out.written.length

variable {w w' : Writer}

theorem Fed.writeChunk (F : Fed aead label w plain) (hfull : chunkPlaintextMax ≤ w.buffer.length)
    (h : w.writeChunk aead label = .ok w') : Fed aead label w' plain ∧ w'.buffer = w.buffer.drop chunkPlaintextMax := by
  simp only [Writer.writeChunk, bind_eq_ok, raiseIf_eq_ok, Nat.not_le] at h
  obtain ⟨record, hrecord, -, hlimit, h⟩ := h
  obtain ⟨-, rfl⟩ := encryptChunk_ok hrecord
  cases h
  refine ⟨⟨fun more => ?_, ?_, hlimit, ?_, ?_⟩, rfl⟩
  · have hlong : chunkPlaintextMax ≤ (w.buffer ++ more).length := by
      rw [List.length_append]
      omega
    rw [← F.written more, body_full hlong, List.take_append_of_le_length hfull,
      List.drop_append_of_le_length hfull, ← List.append_assoc]
    rfl
  · have hcount := F.count
    change (w.chunkIndex + 1) * chunkPlaintextMax + (w.buffer.drop chunkPlaintextMax).length = _
    rw [List.length_drop, Nat.add_mul]
    omega
  · simp only [Output.write, F.digested]
  · simp only [Output.write, F.size, List.length_append]

theorem Fed.drain {fuel : Nat} {plain : Bytes} (F : Fed aead label w plain)
    (hfuel : w.buffer.length ≤ fuel) (h : w.drain aead label fuel = .ok w') :
    Fed aead label w' plain ∧ w'.buffer.length < chunkPlaintextMax := by
  have hpos := chunkPlaintextMax_pos
  induction fuel generalizing w with
  | zero =>
    cases h
    exact ⟨F, by omega⟩
  | succ fuel ih =>
    unfold Writer.drain at h
    split at h
    · rename_i hfull
      obtain ⟨w1, hchunk, h⟩ := bind_eq_ok.mp h
      obtain ⟨F₁, hbuffer⟩ := F.writeChunk hfull hchunk
      have hfuel1 : w1.buffer.length ≤ fuel := by
        rw [hbuffer, List.length_drop]
        omega
      exact ih F₁ hfuel1 h
    · rename_i hshort
      cases h
      exact ⟨F, by omega⟩

theorem Fed.feed {piece : Bytes} (F : Fed aead label w plain) (hshort : w.buffer.length < chunkPlaintextMax)
    (h : w.feed aead label piece = .ok w') : Fed aead label w' (plain ++ piece) ∧ w'.buffer.length < chunkPlaintextMax := by
  unfold Writer.feed at h
  split at h
  · rename_i hempty
    cases h
    rw [hempty, List.append_nil]
    exact ⟨F, hshort⟩
  · have F₁ : Fed aead label { w with buffer := w.buffer ++ piece } (plain ++ piece) := by
      refine ⟨fun more => ?_, ?_, F.bound, F.digested, F.size⟩
      · have hw := F.written (piece ++ more)
        rw [← List.append_assoc, ← List.append_assoc] at hw
        exact hw
      · have hcount := F.count
        simp only [List.length_append]
        omega
    exact F₁.drain (Nat.le_refl _) h

theorem Fed.feedAll {pieces : List Bytes} {plain : Bytes} (F : Fed aead label w plain)
    (hshort : w.buffer.length < chunkPlaintextMax) (h : pieces.foldlM (Writer.feed aead label) w = .ok w') :
    Fed aead label w' (plain ++ pieces.flatten) ∧ w'.buffer.length < chunkPlaintextMax := by
  induction pieces generalizing w plain with
  | nil =>
    cases h
    rw [List.flatten_nil, List.append_nil]
    exact ⟨F, hshort⟩
  | cons piece pieces ih =>
    rw [List.foldlM_cons] at h
    obtain ⟨w1, hpiece, h⟩ := bind_eq_ok.mp h
    obtain ⟨F₁, hshort1⟩ := F.feed hshort hpiece
    rw [List.flatten_cons, ← List.append_assoc]
    exact ih F₁ hshort1 h

theorem fed_nil : Fed aead label { out := ({ } : Output).write (blobHeader label) } [] where
  written _ := rfl
  count := by simp
  bound := by simp [maxChunks]
  digested := rfl
  size := by simp [Output.write]

end Writing

/-- What `encrypt_blob_stream` checked of the labels. -/
structure Label.Accepted (label : Label) : Prop where
  component : (utf8 label.component).length ≤ maxComponentLen
  fmt : (utf8 label.fmt).length ≤ maxFormatLen

section Encrypting

variable {aes : Bytes → Aead} {sha256 : Bytes → String} {dek : Bytes} {label : Label} {pieces : List Bytes}
  {blob : Bytes} {result : EncryptResult}

theorem encryptBlobStream_ok (h : encryptBlobStream aes sha256 dek label pieces = .ok (blob, result)) :
    blob = blobHeader label ++ body (aes dek) label 0 pieces.flatten ∧
      pieces.flatten.length / chunkPlaintextMax < maxChunks ∧ label.Accepted ∧
      result = { sha256Ciphertext := sha256 blob, sizeCiphertext := blob.length } := by
  simp only [encryptBlobStream, bind_eq_ok, raiseIf_eq_ok, not_or, Nat.not_lt] at h
  obtain ⟨-, -, -, hcomponent, -, hfmt, w, hfold, record, hrecord, h⟩ := h
  obtain ⟨F, hshort⟩ := fed_nil.feedAll chunkPlaintextMax_pos hfold
  rw [List.nil_append] at F
  obtain ⟨-, rfl⟩ := encryptChunk_ok hrecord
  cases h
  have hblob := F.written []
  rw [List.append_nil, List.append_nil, body_short hshort] at hblob
  have hindex : pieces.flatten.length / chunkPlaintextMax = w.chunkIndex := by
    rw [← F.count, Nat.mul_comm, Nat.mul_add_div chunkPlaintextMax_pos, Nat.div_eq_of_lt hshort, Nat.add_zero]
  refine ⟨hblob, by rw [hindex]; exact F.bound, ⟨hcomponent.2, hfmt.2⟩, ?_⟩
  simp only [Output.write, F.digested, F.size, List.length_append]

end Encrypting

end Vuzol.Backup
