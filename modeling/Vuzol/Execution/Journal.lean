import Vuzol.Backup.Crypto
import Vuzol.Lib.Frames
import Vuzol.Lib.Json

/-! The journal of an invocation (`execution/journal.py`): records that are appended as sealed frames, and the reader of
    what is left of the file after a crash.

    AES-GCM, JSON and base64 are parameters; a time is counted in microseconds. -/

namespace Vuzol.Execution.Journal

open Vuzol.Lib
open Vuzol.Backup (Aead tagLen)

def magic : Bytes := utf8 "VUZOLTRACE1\n"

def maxFrame : Nat := 4 * 1024 * 1024

inductive JournalError where
  | incompleteHeader | tooLarge | notEncodable
  | invalidJournal | invalidFrame | invalidTag | invalidJson

inductive Payload where
  | bytes (b : Bytes)
  | data (fields : Json)

inductive Content where
  | base64 (t : Text)
  | data (fields : Json)

structure Record where
  seq : Nat
  time : Nat
  channel : Text
  content : Content

/-- `json` and `base64`; `dumps` is none where the record has no encoded text. -/
structure Codec where
  dumps : Record → Option Bytes
  loads : Bytes → Option Record
  b64encode : Bytes → Text
  b64decode : Text → Option Bytes

structure Codec.RoundTrips (codec : Codec) : Prop where
  loads_dumps : ∀ r b, codec.dumps r = some b → codec.loads b = some r
  b64decode_b64encode : ∀ b, codec.b64decode (codec.b64encode b) = some b

def Codec.content (codec : Codec) : Payload → Content
  | .bytes b => .base64 (codec.b64encode b)
  | .data fields => .data fields

def Codec.payload? (codec : Codec) : Content → Option Payload
  | .base64 t => (codec.b64decode t).map .bytes
  | .data fields => some (.data fields)

/-- One call of `append`: its arguments, what the clock and `os.urandom` give it, and how many bytes beside the first each
    `os.write` accepts. -/
structure Append where
  channel : Text
  value : Payload
  time : Nat
  nonce : Bytes
  length_nonce : nonce.length = 12
  accepts : Nat → Nat

/-- `InvocationJournal`: the file and the last sequence number. -/
structure InvocationJournal where
  file : Bytes
  sequence : Nat := 0

/-- The loop of `os.write`. -/
def writeAll (accepts : Nat → Nat) (file remaining : Bytes) : Bytes :=
  if remaining = [] then file
  else
    writeAll (fun i => accepts (i + 1)) (file ++ remaining.take (accepts 0 + 1)) (remaining.drop (accepts 0 + 1))
termination_by remaining.length
decreasing_by
  have hpos := List.length_pos_iff.mpr ‹¬_ = []›
  rw [List.length_drop]
  omega

def Codec.record (codec : Codec) (seq : Nat) (a : Append) : Record where
  seq
  time := a.time
  channel := a.channel
  content := codec.content a.value

section Cipher
variable (cipher : Aead) (codec : Codec)

namespace InvocationJournal

def encrypted (a : Append) (plaintext : Bytes) : Bytes := a.nonce ++ cipher.encrypt a.nonce plaintext magic

/-- `InvocationJournal.append`; the sequence number is spent by a call that fails, too. -/
def append (j : InvocationJournal) (a : Append) : Except JournalError Unit × InvocationJournal :=
  match codec.dumps (codec.record (j.sequence + 1) a) with
  | none => (.error .notEncodable, { j with sequence := j.sequence + 1 })
  | some plaintext =>
    if maxFrame < (encrypted cipher a plaintext).length then (.error .tooLarge, { j with sequence := j.sequence + 1 })
    else
      (.ok (), { file := writeAll a.accepts j.file (frame (encrypted cipher a plaintext)), sequence := j.sequence + 1 })

def run (j : InvocationJournal) (calls : List Append) : InvocationJournal :=
  calls.foldl (fun j a => (j.append cipher codec a).2) j

end InvocationJournal

/-- `ExecutionJournal.open`: `accepted` is what the one `os.write` of the header returns; the first two records are the
    envelope and its stdin. -/
def openJournal (accepted : Nat) (start stdin : Append) : Except JournalError InvocationJournal := do
  raiseIf ((magic.take accepted).length ≠ magic.length) .incompleteHeader
  let (result, j) := InvocationJournal.append cipher codec { file := magic } start
  result
  let (result, j) := j.append cipher codec stdin
  result
  .ok j

/-- `28 <= size <= MAX_FRAME`. -/
def checkSize (size : Nat) : Except JournalError Unit :=
  if 28 ≤ size ∧ size ≤ maxFrame then .ok () else .error .invalidFrame

def openFrame (frame : Bytes) : Except JournalError Record :=
  match cipher.decrypt (frame.take 12) (frame.drop 12) magic with
  | none => .error .invalidTag
  | some plaintext =>
    match codec.loads plaintext with
    | none => .error .invalidJson
    | some record => .ok record

/-- `ExecutionJournal.read`. -/
def read (file : Bytes) : Reading JournalError Record :=
  if file.take magic.length ≠ magic then { error := some .invalidJournal }
  else readFrames checkSize (openFrame cipher codec) (file.drop magic.length)

end Cipher

end Vuzol.Execution.Journal
