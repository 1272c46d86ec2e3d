import Vuzol.Lib.Bytes
import Vuzol.Lib.Machine

/-! The backup blob format (`ops/backup/crypto.py`): `encrypt_blob_stream` and `_decrypt_blob_stream_from_handle`.

    AES-GCM and SHA-256 are parameters. A file is the bytes it holds, and a handle may cut each of its reads. -/

namespace Vuzol.Backup

open Vuzol.Lib

/-- `BackupCryptoError`, by its message. -/
abbrev BackupCryptoError := String

def chunkPlaintextMax : Nat := 1_048_576
def maxChunks : Nat := 2_097_152
def blobMagic : Bytes := utf8 "VBULB002"
def blobHeaderVersion : UInt8 := 0x02
def nonceDomain : Nat := 0x0000_0001
def dekLen : Nat := 32
def tagLen : Nat := 16
def streamReadMax : Nat := 65_536
def maxComponentLen : Nat := 64
def maxFormatLen : Nat := 32

/-- `AESGCM(key)`: nonce, plaintext and associated data; `decrypt` is none on `InvalidTag`. -/
structure Aead where
  encrypt : Bytes → Bytes → Bytes → Bytes
  decrypt : Bytes → Bytes → Bytes → Option Bytes

structure Aead.Correct (aead : Aead) : Prop where
  decrypt_encrypt : ∀ nonce plain aad, aead.decrypt nonce (aead.encrypt nonce plain aad) aad = some plain
  length_encrypt : ∀ nonce plain aad, (aead.encrypt nonce plain aad).length = plain.length + tagLen

/-- `uuid.UUID`. -/
structure RunId where
  bytes : Bytes
  length_eq : bytes.length = 16
  deriving DecidableEq

structure Label where
  runId : RunId
  component : String
  fmt : String

def chunkNonce (index : Nat) : Except BackupCryptoError Bytes := do
  raiseIf (maxChunks ≤ index) "chunk index out of range"
  .ok (packBE 4 nonceDomain ++ packBE 8 index)

def blobAad (label : Label) (chunkIndex plaintextLen : Nat) : Bytes :=
  utf8 "vuzol-backup-blob.v2" ++ [0] ++ label.runId.bytes ++ utf8 label.component ++ utf8 label.fmt ++
    packBE 8 chunkIndex ++ packBE 8 plaintextLen

def blobHeader (label : Label) : Bytes :=
  blobMagic ++ [blobHeaderVersion, 0x00] ++ label.runId.bytes ++
    [UInt8.ofNat (utf8 label.component).length] ++ utf8 label.component ++
    [UInt8.ofNat (utf8 label.fmt).length] ++ utf8 label.fmt ++ packBE 4 chunkPlaintextMax ++ packBE 8 0

def encryptChunk (aead : Aead) (label : Label) (chunkIndex : Nat) (plaintext : Bytes) :
    Except BackupCryptoError Bytes := do
  raiseIf (chunkPlaintextMax < plaintext.length) "chunk too large"
  let nonce ← chunkNonce chunkIndex
  .ok (packBE 4 plaintext.length ++ aead.encrypt nonce plaintext (blobAad label chunkIndex plaintext.length))

structure Output where
  written : Bytes := []
  digested : Bytes := []
  size : Nat := 0

def Output.write (o : Output) (record : Bytes) : Output where
  written := o.written ++ record
  digested := o.digested ++ record
  size := o.size + record.length

structure Writer where
  buffer : Bytes := []
  chunkIndex : Nat := 0
  out : Output

def Writer.writeChunk (aead : Aead) (label : Label) (w : Writer) : Except BackupCryptoError Writer := do
  let record ← encryptChunk aead label w.chunkIndex (w.buffer.take chunkPlaintextMax)
  raiseIf (maxChunks ≤ w.chunkIndex + 1) "chunk limit exceeded"
  .ok { buffer := w.buffer.drop chunkPlaintextMax, chunkIndex := w.chunkIndex + 1, out := w.out.write record }

/-- `while len(buffer) >= CHUNK_PLAINTEXT_MAX`; each round takes a chunk, so `fuel` is the buffer's length. -/
def Writer.drain (aead : Aead) (label : Label) : Nat → Writer → Except BackupCryptoError Writer
  | 0, w => .ok w
  | fuel + 1, w =>
    if chunkPlaintextMax ≤ w.buffer.length then do
      let w ← w.writeChunk aead label
      w.drain aead label fuel
    else .ok w

def Writer.feed (aead : Aead) (label : Label) (w : Writer) (piece : Bytes) : Except BackupCryptoError Writer :=
  if piece = [] then .ok w
  else
    { w with buffer := w.buffer ++ piece }.drain aead label (w.buffer ++ piece).length

structure EncryptResult where
  sha256Ciphertext : String
  sizeCiphertext : Nat

/-- `encrypt_blob_stream`: the file and the result. -/
def encryptBlobStream (aes : Bytes → Aead) (sha256 : Bytes → String) (dek : Bytes) (label : Label)
    (plaintextIter : List Bytes) : Except BackupCryptoError (Bytes × EncryptResult) := do
  raiseIf (dek.length ≠ dekLen) "DEK must be 32 bytes"
  raiseIf (label.component = "" ∨ maxComponentLen < (utf8 label.component).length) "invalid component name"
  raiseIf (label.fmt = "" ∨ maxFormatLen < (utf8 label.fmt).length) "invalid format name"
  let w ← plaintextIter.foldlM (Writer.feed (aes dek) label)
    { out := ({ } : Output).write (blobHeader label) }
  let record ← encryptChunk (aes dek) label w.chunkIndex w.buffer
  let out := w.out.write record
  .ok (out.written, { sha256Ciphertext := sha256 out.digested, sizeCiphertext := out.size })

def readExact (handle : Handle) (n : Nat) (what : String) : Except BackupCryptoError (Bytes × Handle) := do
  let (parts, handle) := handle.fill streamReadMax n
  raiseIf (parts.length < n) ("truncated " ++ what)
  .ok (parts, handle)

def readName (handle : Handle) (maxLen : Nat) (tooLong : String) : Except BackupCryptoError (String × Handle) := do
  let (lenByte, handle) ← readExact handle 1 "blob header"
  raiseIf (maxLen < unpackBE lenByte) tooLong
  let (raw, handle) ← readExact handle (unpackBE lenByte) "blob header"
  match decodeUtf8 raw with
  | none => .error "blob header encoding invalid"
  | some name => .ok (name, handle)

/-- `_parse_blob_header_stream`: what is left of the stream. -/
def parseBlobHeader (handle : Handle) (label : Label) : Except BackupCryptoError Handle := do
  let (pre, handle) ← readExact handle 26 "blob header"
  raiseIf (pre.take 8 ≠ blobMagic) "blob magic mismatch"
  raiseIf (pre[8]? ≠ some blobHeaderVersion ∨ pre[9]? ≠ some 0) "blob version/flags unsupported"
  raiseIf ((pre.drop 10).take 16 ≠ label.runId.bytes) "blob run_id mismatch"
  let (cName, handle) ← readName handle maxComponentLen "blob component name too long"
  let (fName, handle) ← readName handle maxFormatLen "blob format name too long"
  raiseIf (cName ≠ label.component ∨ fName ≠ label.fmt) "blob component/format mismatch"
  -- the last 8 of these bytes are reserved and not looked at
  let (tail, handle) ← readExact handle 12 "blob header"
  raiseIf (unpackBE (tail.take 4) ≠ chunkPlaintextMax) "blob chunk_size_max mismatch"
  .ok handle

/-- One turn of the reading loop: the plaintext, its length field and what is left. -/
def decryptChunk (aead : Aead) (label : Label) (handle : Handle) (chunkIndex : Nat) :
    Except BackupCryptoError (Bytes × Nat × Handle) := do
  -- `_read_until_eof_or_exact`
  let (lengthBytes, handle) := handle.fill streamReadMax 4
  raiseIf (lengthBytes = [])
    (if chunkIndex = 0 then "blob has no chunks" else "truncated blob: missing final chunk")
  raiseIf (lengthBytes.length < 4) "truncated chunk header"
  let plainLen := unpackBE lengthBytes
  raiseIf (chunkPlaintextMax < plainLen) "chunk plaintext_len exceeds max"
  let (ct, handle) ← readExact handle (plainLen + tagLen) "chunk ciphertext"
  let nonce ← chunkNonce chunkIndex
  match aead.decrypt nonce ct (blobAad label chunkIndex plainLen) with
  | none => .error "blob authentication failed"
  | some plain =>
    raiseIf (plain.length ≠ plainLen) "decrypted length mismatch"
    .ok (plain, plainLen, handle)

structure Decrypted where
  yielded : List Bytes := []
  error : Option BackupCryptoError := none

def decryptChunks (aead : Aead) (label : Label) (handle : Handle) (chunkIndex : Nat) : Decrypted :=
  match decryptChunk aead label handle chunkIndex with
  | .error e => { error := some e }
  | .ok (plain, plainLen, handle) =>
    if plainLen < chunkPlaintextMax then
      if (handle.read 1).1 = [] then { yielded := [plain] }
      else { yielded := [plain], error := some "trailing garbage after final chunk" }
    else if maxChunks ≤ chunkIndex + 1 then { yielded := [plain], error := some "chunk limit exceeded" }
    else
      let rest := decryptChunks aead label handle (chunkIndex + 1)
      { rest with yielded := plain :: rest.yielded }
termination_by maxChunks - chunkIndex

def decryptBlobStreamFromHandle (aead : Aead) (label : Label) (handle : Handle) : Decrypted :=
  match parseBlobHeader handle label with
  | .error e => { error := some e }
  | .ok handle => decryptChunks aead label handle 0

end Vuzol.Backup
