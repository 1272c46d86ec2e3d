import Vuzol.Lib.Pattern
import Vuzol.Lib.Program
import Vuzol.Lib.Uuid

/-! The store of artifacts (`execution/artifacts.py`): redaction of secrets, files that are named by the hash of their
    content, and their reading. -/

namespace Vuzol.Artifacts

open Vuzol.Lib

def bytes (t : String) : Bytes := t.toList.map fun c => UInt8.ofNat c.toNat

structure ByteClass where
  marks : String := ""
  hasLower : Bool := false
  hasUpper : Bool := false
  hasDigits : Bool := false

def ByteClass.mem (k : ByteClass) (b : UInt8) : Bool :=
  b ∈ bytes k.marks || (k.hasLower && 97 ≤ b && b ≤ 122) || (k.hasUpper && 65 ≤ b && b ≤ 90) ||
    (k.hasDigits && 48 ≤ b && b ≤ 57)

def capitals : ByteClass := { hasUpper := true, hasDigits := true }

def alphanumeric (marks : String) : ByteClass := { marks := marks, hasLower := true, hasUpper := true, hasDigits := true }

/-- `\s` in a pattern of bytes. -/
def whiteSpace : UInt8 → Bool := fun b => (9 ≤ b && b ≤ 13) || b = 32

/-- A word in lower case, under `(?i:...)`. -/
def wordIgnoringCase (w : String) : Pattern UInt8 :=
  .wordBy (fun c b => b = c || (97 ≤ c && c ≤ 122 && b = c - 32)) (bytes w)

/-- `AKIA[0-9A-Z]{16}`. -/
def awsKey : Pattern UInt8 := .seq (.word (bytes "AKIA")) (.seqAll (List.replicate 16 (.one capitals.mem)))

/-- `(?:gh[pousr]_[A-Za-z0-9]{20,}|github_pat_[A-Za-z0-9_]{20,})`. -/
def githubToken : Pattern UInt8 :=
  .alt (.seqAll [.word (bytes "gh"), .one ({ marks := "pousr" } : ByteClass).mem, .word (bytes "_"), .many (alphanumeric "").mem 20])
    (.seqAll [.word (bytes "github_pat_"), .many (alphanumeric "_").mem 20])

/-- `sk-[A-Za-z0-9_-]{20,}`. -/
def apiKey : Pattern UInt8 := .seqAll [.word (bytes "sk-"), .many (alphanumeric "_-").mem 20]

/-- `(?i:authorization\s*:\s*bearer\s+)`, and at least twenty of the characters `[A-Za-z0-9._~+-]` and the slash. -/
def bearerToken : Pattern UInt8 :=
  .seqAll [wordIgnoringCase "authorization", .many whiteSpace 0, wordIgnoringCase ":", .many whiteSpace 0,
    wordIgnoringCase "bearer", .many whiteSpace 1, .many (alphanumeric "._~+-/").mem 20]

def keyBoundary (w : String) : Pattern UInt8 :=
  .seqAll [.word (bytes w), .many ({ marks := " ", hasUpper := true, hasDigits := true } : ByteClass).mem 0,
    .word (bytes "PRIVATE KEY-----")]

/-- `-----BEGIN [A-Z0-9 ]*PRIVATE KEY-----[\s\S]*?-----END [A-Z0-9 ]*PRIVATE KEY-----`. -/
def privateKey : Pattern UInt8 := .seq (keyBoundary "-----BEGIN ") (.seq (.manyLazy fun _ => true) (keyBoundary "-----END "))

def builtinSecretPatterns : List (Pattern UInt8) := [awsKey, githubToken, apiKey, bearerToken, privateKey]

/-- A compiled pattern by its `finditer`: the bytes skipped in front of each match, and its length. -/
abbrev Redactor := Bytes → List (Nat × Nat)

def builtinRedactors : List Redactor := builtinSecretPatterns.map Pattern.finditer

inductive ArtifactError where
  | secret
  | unmanaged
  | unsafeReference
  | missing
  | tooLarge
  | hashMismatch
  /-- `os.open` raises `FileExistsError`. -/
  | fileExists
  deriving DecidableEq

namespace ArtifactError

def message : ArtifactError → String
  | secret => "artifact matched a configured secret pattern"
  | unmanaged => "artifact reference is not a managed artifact URI"
  | unsafeReference => "artifact reference is unsafe"
  | missing => "artifact bytes are missing"
  | tooLarge => "artifact exceeds configured byte limit"
  | hashMismatch => "artifact bytes do not match the recorded hash"
  | fileExists => "File exists"

end ArtifactError

structure ArtifactStore where
  maxBytes : Nat
  redactors : List Redactor
  redactionRevision : Text

namespace ArtifactStore

/-- `ArtifactStore(...)`; the patterns that are built in come first. -/
def new (maxBytes : Nat) (redactionPatterns : List Redactor) (redactionRevision : Text) : ArtifactStore :=
  { maxBytes := maxBytes, redactors := builtinRedactors ++ redactionPatterns, redactionRevision := redactionRevision }

variable (store : ArtifactStore)

def rejectSecrets (content : Bytes) : Except ArtifactError Unit :=
  raiseIf (store.redactors.any (fun finditer => !(finditer content).isEmpty) = true) .secret

def marker : Bytes := bytes "[REDACTED]"

/-- `redact`, with the patterns that are left. -/
def redactWith : List Redactor → Bytes × Bool → Bytes × Bool
  | [], r => r
  | finditer :: redactors, (redacted, matched) =>
    redactWith redactors (substitute marker (finditer redacted) redacted, matched || !(finditer redacted).isEmpty)

def redact (content : Bytes) : Bytes × Option Text :=
  let r := redactWith store.redactors (content, false)
  (r.1, if r.2 then some store.redactionRevision else none)

end ArtifactStore

/-- `hashlib.sha256(...).hexdigest()`. -/
structure Hashing where
  sha256 : Bytes → Text
  hex : ∀ {b : Bytes} {c : Char}, c ∈ sha256 b → IsHex c
  length : ∀ b, (sha256 b).length = 64

/-- `Path(digest[:2]) / digest`. -/
def relative (digest : Text) : Text := digest.take 2 ++ '/' :: digest

/-- `destination.with_name(f".{digest}.{uuid}.tmp")`. -/
def temporary (digest : Text) (uuid : Uuid) : Text :=
  digest.take 2 ++ '/' :: '.' :: digest ++ '.' :: uuid.str ++ ".tmp".toList

structure Artifact where
  contentUri : Text
  storageKey : Text
  sizeBytes : Nat
  contentHash : Text
  redactionRevision : Option Text
  deriving DecidableEq

structure Disk where
  files : Text → Option Bytes := fun _ => none
  rows : List Artifact := []

/-- What `persist` does at a time. -/
inductive FileOp where
  | select
  | mkdir
  | stat
  | openTemporary (path : Text)
  /-- `os.write`, with the bytes that it takes. -/
  | write (path : Text) (taken : Bytes)
  | fsync
  | close
  | replace (source target : Text)
  | flush (row : Artifact)

def Disk.setFile (s : Disk) (path : Text) (content : Option Bytes) : Disk :=
  { s with files := fun p => if p = path then content else s.files p }

def FileOp.perform : FileOp → Disk → Disk
  | openTemporary path, s => if (s.files path).isSome then s else s.setFile path (some [])
  | write path taken, s => s.setFile path (some ((s.files path).getD [] ++ taken))
  | replace source target, s => (s.setFile target (s.files source)).setFile source none
  | flush row, s => { s with rows := s.rows ++ [row] }
  | _, s => s

/-- The arguments of a call. -/
structure PersistArgs where
  taskId : Uuid
  runId : Uuid
  stepId : Uuid
  artifactType : Text
  content : Bytes
  redactionRevision : Option Text

def PersistArgs.storageKey (args : PersistArgs) (digest : Text) : Text :=
  args.taskId.str ++ '/' :: args.runId.str ++ '/' :: args.stepId.str ++ '/' :: args.artifactType ++ '/' :: digest

/-- What is random or given by the system in a call: the name of the temporary file, and how much `os.write` takes. -/
structure CallEnv where
  uuid : Uuid
  written : Nat

abbrev Persist := Program Disk FileOp ArtifactError Artifact

variable (hashing : Hashing) (store : ArtifactStore)

def newArtifact (args : PersistArgs) : Artifact :=
  let (content, applied) := store.redact args.content
  let digest := hashing.sha256 content
  { contentUri := "artifact:".toList ++ relative digest, storageKey := args.storageKey digest, sizeBytes := content.length,
    contentHash := digest, redactionRevision := args.redactionRevision <|> applied }

def publish (env : CallEnv) (digest : Text) (content : Bytes) : Program Disk FileOp ArtifactError Unit :=
  let path := temporary digest env.uuid
  .exec (.openTemporary path) fun s =>
    if (s.files path).isSome then .raise .fileExists
    else
      .exec (.write path (content.take env.written)) fun _ =>
        .exec .fsync fun _ => .exec .close fun _ => .exec (.replace path (relative digest)) fun _ => .ret ()

def persist (args : PersistArgs) (env : CallEnv) : Persist :=
  let content := (store.redact args.content).1
  let digest := hashing.sha256 content
  if store.maxBytes < content.length then .raise .tooLarge
  else
    .exec .select fun s =>
      match s.rows.find? fun row => row.storageKey = args.storageKey digest with
      | some existing => .ret existing
      | none =>
        .exec .mkdir fun _ => .exec .stat fun s =>
          (if (s.files (relative digest)).isSome then .ret () else publish env digest content) >>= fun _ =>
            .exec (.flush (newArtifact hashing store args)) fun _ => .ret (newArtifact hashing store args)

/-- `Path(relative)` of a text without a slash in front. -/
def pathParts (t : Text) : List Text := (t.splitOn '/').filter fun part => part ≠ [] && part ≠ ['.']

/-- `read`. -/
def readArtifact (s : Disk) (contentUri : Text) : Except ArtifactError Bytes := do
  raiseIf (("artifact:".toList).isPrefixOf contentUri = false) .unmanaged
  let rest := contentUri.drop 9
  raiseIf (rest = [] ∨ rest.head? = some '/' ∨ ['.', '.'] ∈ pathParts rest) .unsafeReference
  match s.files (['/'].intercalate (pathParts rest)) with
  | none => .error .missing
  | some content => do
    raiseIf (store.maxBytes < content.length) .tooLarge
    .ok content

def readVerified (s : Disk) (contentUri expectedHash : Text) : Except ArtifactError Bytes := do
  let content ← readArtifact store s contentUri
  raiseIf (hashing.sha256 content ≠ expectedHash) .hashMismatch
  .ok content

inductive StoreOp where
  | persist (args : PersistArgs) (env : CallEnv)
  | interrupted (args : PersistArgs) (env : CallEnv) (steps : Nat)
  /-- A transaction is rolled back: the rows that are not kept are gone. -/
  | rollback (kept : List Artifact)

structure StoreState where
  disk : Disk := {}
  returned : List Artifact := []

namespace StoreOp

def perform (s : StoreState) : StoreOp → Except ArtifactError StoreState
  | persist args env =>
    match (Artifacts.persist hashing store args env).run FileOp.perform s.disk with
    | (.ok artifact, disk) => .ok { disk := disk, returned := s.returned ++ [artifact] }
    | (.error _, disk) => .ok { s with disk := disk }
  | interrupted args env steps =>
    .ok { s with disk := (Artifacts.persist hashing store args env).interrupted FileOp.perform steps s.disk }
  | rollback kept => .ok { s with disk := { s.disk with rows := s.disk.rows.filter (· ∈ kept) } }

def executed (s : StoreState) : StoreOp → List FileOp
  | persist args env => ((Artifacts.persist hashing store args env).trace FileOp.perform s.disk).map Prod.fst
  | interrupted args env steps => (Artifacts.persist hashing store args env).executed FileOp.perform steps s.disk
  | rollback _ => []

def isReplace : FileOp → Bool
  | .replace _ _ => true
  | _ => false

/-- How much of the content `os.write` takes. -/
def isWhole : StoreOp → Bool
  | persist args env | interrupted args env _ => (store.redact args.content).1.length ≤ env.written
  | rollback _ => true

end StoreOp

end Vuzol.Artifacts
