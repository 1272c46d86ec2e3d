import Vuzol.Lib.Pattern
import Vuzol.Lib.Pydantic

/-! Manifests of backups (`ops/backup/manifest.py`): their models, what counts as a secret in them, and their file. -/

namespace Vuzol.Backup

open Vuzol.Lib

namespace Manifest

/-! ### The models -/

structure BackupAppIdentity where
  gitCommit : Text
  deployPath : Text
  serviceName : Text
  deriving DecidableEq

structure BackupSchemaIdentity where
  alembicHeadExpected : Text
  alembicHeadObserved : Text
  postgresVersion : Option Text
  deriving DecidableEq

structure ConfigFileHash where
  name : Text
  sha256 : Text
  size : Int
  deriving DecidableEq

structure BackupConfigSnapshot where
  registryRevision : Text
  files : List ConfigFileHash
  seccompSha256 : Option Text
  deriving DecidableEq

structure BackupComponent where
  filename : Text
  sha256Ciphertext : Text
  sizeCiphertext : Int
  cipher : Text
  format : Option Text
  objectCount : Option Int
  bytesLogical : Option Int
  inventorySha256 : Option Text
  deriving DecidableEq

structure MissingBlobRecord where
  contentHash : Text
  storageState : Text
  deriving DecidableEq

structure OrphanFileRecord where
  relpath : Text
  action : Text
  deriving DecidableEq

structure ArtifactReconciliation where
  dbRows : Int
  fsObjects : Int
  missingBlobs : List MissingBlobRecord
  orphanFiles : List OrphanFileRecord
  skippedSymlinks : Int
  deriving DecidableEq

structure BackupRetentionMeta where
  keepLocalRuns : Int
  keepOffhostDays : Int
  deriving DecidableEq

inductive QuiesceMode where
  | fence | manual | none
  deriving DecidableEq

structure BackupQuiesceInfo where
  mode : QuiesceMode
  durationSeconds : Int
  deriving DecidableEq

structure BackupRpoRto where
  targetsProposed : Bool
  rpoSecondsTarget : Int
  rtoSecondsTarget : Int
  rpoSecondsMeasured : Option Int
  rtoSecondsMeasured : Option Int
  deriving DecidableEq

/-- The `dict` of components, which has these keys and no others. -/
structure Components where
  postgres : Option BackupComponent
  artifacts : Option BackupComponent
  config : Option BackupComponent
  deriving DecidableEq

structure BackupManifest where
  runId : Uuid
  createdAt : Instant
  tStart : Instant
  tEnd : Instant
  hostname : Text
  app : BackupAppIdentity
  schemaIdentity : BackupSchemaIdentity
  config : BackupConfigSnapshot
  components : Components
  artifactReconciliation : ArtifactReconciliation
  retention : BackupRetentionMeta
  quiesce : BackupQuiesceInfo
  rpoRto : BackupRpoRto
  incomplete : Bool
  deriving DecidableEq

def schemaVersion : Text := "backup-manifest.v1".toList

/-! ### Names of secrets -/

def texts (words : List String) : List Text := words.map String.toList

def secretFieldTokens : List Text :=
  texts ["password", "secret", "token", "apikey", "credential", "credentials", "passwd", "pwd", "dsn", "authorization", "bearer"]

def secretFieldPairs : List (Text × Text) :=
  [("api", "key"), ("private", "key"), ("access", "token"), ("refresh", "token"), ("client", "secret"), ("auth", "token"),
    ("signing", "key")].map fun p => (p.1.toList, p.2.toList)

def secretNegationTokens : List Text := texts ["no", "non", "not", "without"]

def secretContextAllow : List Text := texts ["scan", "scanning", "scanner", "report", "policy", "audit"]

def fileExtTokens : List Text := texts ["toml", "json", "yaml", "yml", "md", "txt", "env", "cfg", "ini", "pem", "conf"]

def isSegmentChar (c : Char) : Bool := c.isDigit || ('a' ≤ c && c ≤ 'z')

def namesSecret : Option Text → List Text → Bool
  | _, [] => false
  | previous, segment :: rest =>
    (rest.head?.any fun next => (segment, next) ∈ secretFieldPairs) ||
      (segment ∈ secretFieldTokens && !previous.any (· ∈ secretNegationTokens) &&
        !(segment = "secret".toList && rest.head?.any (· ∈ secretContextAllow))) ||
      namesSecret (some segment) rest

def nameSegments (lowered : Text) : List Text :=
  let segments := (lowered.splitOnP fun c => !isSegmentChar c).filter (· ≠ [])
  if segments.getLast?.any (· ∈ fileExtTokens) then segments.dropLast else segments

/-! ### What the validators of the models leave -/

def isLowerHex (c : Char) : Bool := c.isDigit || ('a' ≤ c && c ≤ 'f')

/-- `_SHA256_RE`. -/
def isSha256 (t : Text) : Bool := t.length = 64 && t.all isLowerHex

/-- `[A-Za-z0-9][A-Za-z0-9._-]{0,most}`. -/
def isSafeName (most : Nat) : Text → Bool
  | c :: rest => c.isAlphanum && rest.all (fun c => c.isAlphanum || c = '.' || c = '_' || c = '-') && rest.length ≤ most
  | [] => false

def Within (least most : Nat) (t : Text) : Prop := least ≤ t.length ∧ t.length ≤ most

def InRange (least most n : Int) : Prop := least ≤ n ∧ n ≤ most

def storageStates : List Text := texts ["available", "staging", "quarantined", "missing", "deleted"]

def PlainName (most : Nat) (t : Text) : Prop :=
  isSafeName most t = true ∧ namesSecret none (nameSegments (t.map Char.toLower)) = false

structure BackupAppIdentity.Valid (x : BackupAppIdentity) : Prop where
  gitCommit : Within 7 64 x.gitCommit ∧ x.gitCommit.all isLowerHex = true
  deployPath : Within 0 500 x.deployPath ∧ strip x.deployPath = x.deployPath ∧ x.deployPath.head? = some '/'
  serviceName : Within 1 100 x.serviceName

structure BackupSchemaIdentity.Valid (x : BackupSchemaIdentity) : Prop where
  alembicHeadExpected : Within 1 64 x.alembicHeadExpected ∧ x.alembicHeadExpected.all isLowerHex = true
  alembicHeadObserved : Within 1 64 x.alembicHeadObserved ∧ x.alembicHeadObserved.all isLowerHex = true
  postgresVersion : ∀ t ∈ x.postgresVersion, Within 0 100 t

structure ConfigFileHash.Valid (x : ConfigFileHash) : Prop where
  name : PlainName 127 x.name
  sha256 : isSha256 x.sha256 = true
  size : InRange 0 100000000 x.size

structure BackupConfigSnapshot.Valid (x : BackupConfigSnapshot) : Prop where
  registryRevision : isSha256 x.registryRevision = true
  files : x.files.length ≤ 50 ∧ ∀ f ∈ x.files, f.Valid
  seccompSha256 : ∀ t ∈ x.seccompSha256, isSha256 t = true

structure BackupComponent.Valid (x : BackupComponent) : Prop where
  filename : isSafeName 127 x.filename = true
  sha256Ciphertext : isSha256 x.sha256Ciphertext = true
  sizeCiphertext : InRange 0 50000000000 x.sizeCiphertext
  cipher : PlainName 99 x.cipher
  format : ∀ t ∈ x.format, PlainName 99 t
  objectCount : ∀ n ∈ x.objectCount, InRange 0 10000000 n
  bytesLogical : ∀ n ∈ x.bytesLogical, InRange 0 50000000000 n
  inventorySha256 : ∀ t ∈ x.inventorySha256, isSha256 t = true

structure MissingBlobRecord.Valid (x : MissingBlobRecord) : Prop where
  contentHash : isSha256 x.contentHash = true
  storageState : x.storageState ∈ storageStates

structure OrphanFileRecord.Valid (x : OrphanFileRecord) : Prop where
  relpath : Within 0 500 x.relpath ∧ strip x.relpath = x.relpath ∧ '\x5c' ∉ x.relpath ∧ x.relpath.head? ≠ some '/' ∧
    ['.', '.'] ∉ x.relpath.splitOn '/'
  action : Within 1 100 x.action

structure ArtifactReconciliation.Valid (x : ArtifactReconciliation) : Prop where
  dbRows : InRange 0 10000000 x.dbRows
  fsObjects : InRange 0 10000000 x.fsObjects
  missingBlobs : x.missingBlobs.length ≤ 10000 ∧ ∀ r ∈ x.missingBlobs, r.Valid
  orphanFiles : x.orphanFiles.length ≤ 10000 ∧ ∀ r ∈ x.orphanFiles, r.Valid
  skippedSymlinks : InRange 0 10000000 x.skippedSymlinks

structure BackupRetentionMeta.Valid (x : BackupRetentionMeta) : Prop where
  keepLocalRuns : InRange 1 100 x.keepLocalRuns
  keepOffhostDays : InRange 1 3650 x.keepOffhostDays

structure BackupQuiesceInfo.Valid (x : BackupQuiesceInfo) : Prop where
  durationSeconds : InRange 0 3600 x.durationSeconds

structure BackupRpoRto.Valid (x : BackupRpoRto) : Prop where
  rpoSecondsTarget : InRange 60 604800 x.rpoSecondsTarget
  rtoSecondsTarget : InRange 60 86400 x.rtoSecondsTarget
  rpoSecondsMeasured : ∀ n ∈ x.rpoSecondsMeasured, InRange 0 604800 n
  rtoSecondsMeasured : ∀ n ∈ x.rtoSecondsMeasured, InRange 0 86400 n

/-- An instance of one of the models, as its constructor builds it. -/
inductive Instance where
  | app (x : BackupAppIdentity) (h : x.Valid)
  | schemaIdentity (x : BackupSchemaIdentity) (h : x.Valid)
  | configFile (x : ConfigFileHash) (h : x.Valid)
  | config (x : BackupConfigSnapshot) (h : x.Valid)
  | component (x : BackupComponent) (h : x.Valid)
  | missingBlob (x : MissingBlobRecord) (h : x.Valid)
  | orphanFile (x : OrphanFileRecord) (h : x.Valid)
  | reconciliation (x : ArtifactReconciliation) (h : x.Valid)
  | retention (x : BackupRetentionMeta) (h : x.Valid)
  | quiesce (x : BackupQuiesceInfo) (h : x.Valid)
  | rpoRto (x : BackupRpoRto) (h : x.Valid)

inductive Foreign (Other : Type) where
  | instance (i : Instance)
  | other (o : Other)

/-- What the functions here take from elsewhere: the Unicode tables, pydantic's lax mode, SHA-256 and the floats of
    `json`. Outside ASCII nothing becomes a hexadecimal digit in lower case. -/
structure Environment (Other : Type) where
  lower : Text → Text
  lower_ascii : ∀ {t}, (∀ c ∈ t, c.toNat < 128) → lower t = t.map Char.toLower
  lower_hex : ∀ {t}, (∀ c ∈ lower t, isLowerHex c = true) → ∀ c ∈ t, c.toNat < 128
  /-- `str.isalnum` outside ASCII. -/
  isAlnum : Char → Bool
  lax : Lax (Foreign Other)
  float : Text → Foreign Other
  sha256 : Bytes → Text

/-! ### Secrets -/

/-- What a validator raises. -/
inductive Refusal where
  | value (message : String)
  | unknownKeys (keys : List Text)
  | secretFieldName (name : Text)
  | secretValue (field : Text)
  | forbiddenPath (field : Text)
  | keysNotStrings
  deriving DecidableEq

namespace Refusal

def message : Refusal → String
  | value message => message
  | unknownKeys keys => s!"unknown component keys: {keys.map String.ofList}"
  | secretFieldName name => "secret-like field name is forbidden: " ++ String.ofList name
  | secretValue field => "secret-like value is forbidden in " ++ String.ofList field
  | forbiddenPath field => "forbidden path material in " ++ String.ofList field
  | keysNotStrings => "manifest keys must be strings"

end Refusal

variable {Other : Type} (env : Environment Other)

def rejectSecretFieldName (name : Text) : Except Refusal Unit :=
  raiseIf (namesSecret none (nameSegments (env.lower name)) = true) (.secretFieldName name)

def wordIgnoringCase (w : String) : Pattern Char := .wordBy ignoringCase w.toList

/-- `[A-Za-z0-9]` under `(?i)`, with some marks. -/
def alphanumeric (marks : String) (c : Char) : Bool :=
  c.isAlphanum || c = 'İ' || c = 'ı' || c = 'ſ' || c = 'K' || c ∈ marks.toList

/-- `(?:password|secret|api[_-]?key|token)\s*[:=]\s*\S+`. -/
def assignment : Pattern Char :=
  .seqAll [.alt (wordIgnoringCase "password") (.alt (wordIgnoringCase "secret") (.alt
      (.seqAll [wordIgnoringCase "api", .alt (.one fun c => c = '_' || c = '-') .empty, wordIgnoringCase "key"])
      (wordIgnoringCase "token"))),
    .many isSpace 0, .one (fun c => c = ':' || c = '='), .many isSpace 0, .many (fun c => !isSpace c) 1]

/-- `sk-[A-Za-z0-9]{16,}`. -/
def apiKey : Pattern Char := .seqAll [wordIgnoringCase "sk-", .many (alphanumeric "") 16]

/-- `postgres(?:ql)?(?:\+[a-z0-9_]+)?://[^\s]+`. -/
def postgresUrl : Pattern Char :=
  .seqAll [wordIgnoringCase "postgres", .alt (wordIgnoringCase "ql") .empty,
    .alt (.seqAll [.one fun c => c = '+', .many (alphanumeric "_") 1]) .empty, wordIgnoringCase "://",
    .many (fun c => !isSpace c) 1]

/-- `Bearer\s+`, some of the characters `[A-Za-z0-9\-._~+]` and the slash, and `=*`. -/
def bearerToken : Pattern Char :=
  .seqAll [wordIgnoringCase "bearer", .many isSpace 1, .many (alphanumeric "-._~+/") 1, .many (fun c => c = '=') 0]

/-- `eyJ[A-Za-z0-9_-]{8,}\.[A-Za-z0-9_-]{8,}\.[A-Za-z0-9_-]{8,}`. -/
def compactJwt : Pattern Char :=
  .seqAll [wordIgnoringCase "eyj", .many (alphanumeric "_-") 8, .one fun c => c = '.', .many (alphanumeric "_-") 8,
    .one fun c => c = '.', .many (alphanumeric "_-") 8]

/-- `\w`. -/
def isWord (c : Char) : Bool := if c.toNat < 128 then c.isAlphanum || c = '_' else env.isAlnum c

/-- `_SECRET_VALUE_RE.search`: an assignment at the start or behind something that is no word, or one of the others. -/
def secretValue (value : Text) : Bool :=
  !(assignment.rests value).isEmpty || (Pattern.seq (.one fun c => !isWord env c) assignment).search value ||
    apiKey.search value || postgresUrl.search value || bearerToken.search value || compactJwt.search value

def forbiddenPathPrefixes : List Text := texts ["/run/secrets", "/etc/vuzol"]

def isPathChar (c : Char) : Bool := c.isAlphanum || c = '.' || c = '_' || c = '-'

/-- The places at which `find` has a path, each with the character in front of it. -/
def standsIn (root : Text) : Option Char → Text → Bool
  | _, [] => false
  | previous, c :: rest =>
    (root.isPrefixOf (c :: rest) && !previous.any isPathChar && ((c :: rest).drop root.length).head?.all (· = '/')) ||
      standsIn root (some c) rest

def forbiddenPathMaterial (value : Text) : Bool := forbiddenPathPrefixes.any fun root => standsIn root none value

def rejectSecretString (value field : Text) : Except Refusal Unit := do
  raiseIf (secretValue env value = true) (.secretValue field)
  raiseIf (forbiddenPathMaterial value = true) (.forbiddenPath field)

mutual

def walkRejectSecrets : (path : Text) → Value (Foreign Other) → Except Refusal Unit
  | path, .dict items => walkItems path items
  | path, .list entries => walkEntries path 0 entries
  | path, .tuple entries => walkEntries path 0 entries
  | path, .str t => rejectSecretString env t path
  | _, _ => .ok ()

def walkItems : (path : Text) → List (Value (Foreign Other) × Value (Foreign Other)) → Except Refusal Unit
  | _, [] => .ok ()
  | path, (.str key, x) :: items => do
    rejectSecretFieldName env key
    walkRejectSecrets (path ++ '.' :: key) x
    walkItems path items
  | _, (_, _) :: _ => .error .keysNotStrings

def walkEntries : (path : Text) → Nat → List (Value (Foreign Other)) → Except Refusal Unit
  | _, _, [] => .ok ()
  | path, i, x :: entries => do
    walkRejectSecrets (path ++ '[' :: (Nat.toDigits 10 i ++ [']'])) x
    walkEntries path (i + 1) entries

end

/-! ### Validators -/

def requireAwareUtc (value : Datetime) : Except Refusal Instant :=
  match value.offset with
  | none => .error (.value "timestamps must be timezone-aware (UTC preferred)")
  | some offset =>
    if h : 0 ≤ value.wall - offset ∧ (value.wall - offset).toNat < 315537897600000000 then
      .ok { micros := (value.wall - offset).toNat, bounded := h.2 }
    else .error (.value "date value out of range")

def ensure (p : Prop) [Decidable p] (message : String) (t : Text) : Except Refusal Text :=
  if p then .ok t else .error (.value message)

def requireSha256 (value : Text) : Except Refusal Text :=
  let cleaned := env.lower (strip value)
  ensure (isSha256 cleaned = true) "hash must be a 64-character lowercase hex sha256" cleaned

def requireOptionalSha256 : Option Text → Except Refusal (Option Text)
  | none => .ok none
  | some value => (requireSha256 env value).map some

def validateCommit (value : Text) : Except Refusal Text :=
  let lowered := env.lower (strip value)
  ensure (lowered.all isLowerHex = true ∧ 7 ≤ lowered.length ∧ lowered.length ≤ 64) "git_commit must be a hex revision" lowered

def validateDeployPath (value : Text) : Except Refusal Text := do
  let cleaned := strip value
  raiseIf (cleaned.head? ≠ some '/') (.value "deploy_path must be absolute")
  rejectSecretString env cleaned "deploy_path".toList
  .ok cleaned

def validateAlembicId (value : Text) : Except Refusal Text :=
  let cleaned := env.lower (strip value)
  ensure (cleaned.all isLowerHex = true ∧ cleaned ≠ []) "alembic head must be a hex revision id" cleaned

def validateName (value : Text) : Except Refusal Text := do
  let cleaned := strip value
  raiseIf ('/' ∈ cleaned ∨ '\x5c' ∈ cleaned ∨ cleaned.head? = some '.') (.value "config file name must be a basename without path")
  raiseIf (isSafeName 127 cleaned = false) (.value "config file name contains unsafe characters")
  rejectSecretFieldName env cleaned
  .ok cleaned

def validateFilename (value : Text) : Except Refusal Text := do
  let cleaned := strip value
  raiseIf ('/' ∈ cleaned ∨ '\x5c' ∈ cleaned) (.value "component filename must not contain path separators")
  raiseIf (isSafeName 127 cleaned = false) (.value "component filename contains unsafe characters")
  .ok cleaned

def validateLabel (value : Text) : Except Refusal Text := do
  let cleaned := strip value
  raiseIf (isSafeName 99 cleaned = false) (.value "component label is unsafe")
  rejectSecretFieldName env cleaned
  .ok cleaned

def validateLabels : Option Text → Except Refusal (Option Text)
  | none => .ok none
  | some value => (validateLabel env value).map some

def validateState (value : Text) : Except Refusal Text :=
  let cleaned := env.lower (strip value)
  ensure (cleaned ∈ storageStates) "unknown storage_state" cleaned

def validateRelpath (value : Text) : Except Refusal Text := do
  let cleaned := (strip value).map fun c => if c = '\x5c' then '/' else c
  raiseIf (cleaned.head? = some '/' ∨ ['.', '.'] ∈ cleaned.splitOn '/') (.value "orphan relpath must be relative without ..")
  rejectSecretString env cleaned "relpath".toList
  .ok cleaned

def validateHostname (value : Text) : Except Refusal Text :=
  let cleaned := strip value
  ensure (isSafeName 252 cleaned = true) "hostname is unsafe" cleaned

/-! ### What a model makes of a value -/

open Lax

def BackupAppIdentity.modelValidate : Value (Foreign Other) → Except (Invalid Refusal) BackupAppIdentity
  | .object (.instance (.app x _)) => .ok x
  | v => do
    let items ← env.lax.itemsOf ["git_commit", "deploy_path", "service_name"] v
    let gitCommit ← required items "git_commit" (checked (env.lax.textOf 7 64) (validateCommit env))
    let deployPath ← required items "deploy_path" (checked (env.lax.textOf 1 500) (validateDeployPath env))
    let serviceName ← required items "service_name" (env.lax.textOf 1 100)
    .ok { gitCommit := gitCommit, deployPath := deployPath, serviceName := serviceName }

def BackupSchemaIdentity.modelValidate : Value (Foreign Other) → Except (Invalid Refusal) BackupSchemaIdentity
  | .object (.instance (.schemaIdentity x _)) => .ok x
  | v => do
    let items ← env.lax.itemsOf ["alembic_head_expected", "alembic_head_observed", "postgres_version"] v
    let expected ← required items "alembic_head_expected" (checked (env.lax.textOf 1 64) (validateAlembicId env))
    let observed ← required items "alembic_head_observed" (checked (env.lax.textOf 1 64) (validateAlembicId env))
    let postgresVersion ← withDefault items "postgres_version" none (nullable (env.lax.textOf 0 100))
    .ok { alembicHeadExpected := expected, alembicHeadObserved := observed, postgresVersion := postgresVersion }

def ConfigFileHash.modelValidate : Value (Foreign Other) → Except (Invalid Refusal) ConfigFileHash
  | .object (.instance (.configFile x _)) => .ok x
  | v => do
    let items ← env.lax.itemsOf ["name", "sha256", "size"] v
    let name ← required items "name" (checked (env.lax.textOf 1 200) (validateName env))
    let sha256 ← required items "sha256" (checked (env.lax.textOf 64 64) (requireSha256 env))
    let size ← required items "size" (env.lax.intOf 0 100000000)
    .ok { name := name, sha256 := sha256, size := size }

def BackupConfigSnapshot.modelValidate : Value (Foreign Other) → Except (Invalid Refusal) BackupConfigSnapshot
  | .object (.instance (.config x _)) => .ok x
  | v => do
    let items ← env.lax.itemsOf ["registry_revision", "files", "seccomp_sha256"] v
    let registryRevision ← required items "registry_revision" (checked (env.lax.textOf 64 64) (requireSha256 env))
    let files ← withDefault items "files" [] (env.lax.tupleOf 50 (ConfigFileHash.modelValidate env))
    let seccompSha256 ← withDefault items "seccomp_sha256" none
      (checked (nullable (env.lax.textOf 64 64)) (requireOptionalSha256 env))
    .ok { registryRevision := registryRevision, files := files, seccompSha256 := seccompSha256 }

def BackupComponent.modelValidate : Value (Foreign Other) → Except (Invalid Refusal) BackupComponent
  | .object (.instance (.component x _)) => .ok x
  | v => do
    let items ← env.lax.itemsOf ["filename", "sha256_ciphertext", "size_ciphertext", "cipher", "format", "object_count",
      "bytes_logical", "inventory_sha256"] v
    let filename ← required items "filename" (checked (env.lax.textOf 1 200) validateFilename)
    let sha256Ciphertext ← required items "sha256_ciphertext" (checked (env.lax.textOf 64 64) (requireSha256 env))
    let sizeCiphertext ← required items "size_ciphertext" (env.lax.intOf 0 50000000000)
    let cipher ← withDefault items "cipher" "aes-256-gcm".toList (checked (env.lax.textOf 1 100) (validateLabel env))
    let format ← withDefault items "format" none (checked (nullable (env.lax.textOf 0 100)) (validateLabels env))
    let objectCount ← withDefault items "object_count" none (nullable (env.lax.intOf 0 10000000))
    let bytesLogical ← withDefault items "bytes_logical" none (nullable (env.lax.intOf 0 50000000000))
    let inventorySha256 ← withDefault items "inventory_sha256" none
      (checked (nullable (env.lax.textOf 64 64)) (requireOptionalSha256 env))
    .ok { filename := filename, sha256Ciphertext := sha256Ciphertext, sizeCiphertext := sizeCiphertext, cipher := cipher
          format := format, objectCount := objectCount, bytesLogical := bytesLogical, inventorySha256 := inventorySha256 }

def MissingBlobRecord.modelValidate : Value (Foreign Other) → Except (Invalid Refusal) MissingBlobRecord
  | .object (.instance (.missingBlob x _)) => .ok x
  | v => do
    let items ← env.lax.itemsOf ["content_hash", "storage_state"] v
    let contentHash ← required items "content_hash" (checked (env.lax.textOf 64 64) (requireSha256 env))
    let storageState ← required items "storage_state" (checked (env.lax.textOf 1 40) (validateState env))
    .ok { contentHash := contentHash, storageState := storageState }

def OrphanFileRecord.modelValidate : Value (Foreign Other) → Except (Invalid Refusal) OrphanFileRecord
  | .object (.instance (.orphanFile x _)) => .ok x
  | v => do
    let items ← env.lax.itemsOf ["relpath", "action"] v
    let relpath ← required items "relpath" (checked (env.lax.textOf 1 500) (validateRelpath env))
    let action ← required items "action" (env.lax.textOf 1 100)
    .ok { relpath := relpath, action := action }

def ArtifactReconciliation.modelValidate : Value (Foreign Other) → Except (Invalid Refusal) ArtifactReconciliation
  | .object (.instance (.reconciliation x _)) => .ok x
  | v => do
    let items ← env.lax.itemsOf ["db_rows", "fs_objects", "missing_blobs", "orphan_files", "skipped_symlinks"] v
    let dbRows ← required items "db_rows" (env.lax.intOf 0 10000000)
    let fsObjects ← required items "fs_objects" (env.lax.intOf 0 10000000)
    let missingBlobs ← withDefault items "missing_blobs" [] (env.lax.tupleOf 10000 (MissingBlobRecord.modelValidate env))
    let orphanFiles ← withDefault items "orphan_files" [] (env.lax.tupleOf 10000 (OrphanFileRecord.modelValidate env))
    let skippedSymlinks ← withDefault items "skipped_symlinks" 0 (env.lax.intOf 0 10000000)
    .ok { dbRows := dbRows, fsObjects := fsObjects, missingBlobs := missingBlobs, orphanFiles := orphanFiles
          skippedSymlinks := skippedSymlinks }

def BackupRetentionMeta.modelValidate : Value (Foreign Other) → Except (Invalid Refusal) BackupRetentionMeta
  | .object (.instance (.retention x _)) => .ok x
  | v => do
    let items ← env.lax.itemsOf ["keep_local_runs", "keep_offhost_days"] v
    let keepLocalRuns ← required items "keep_local_runs" (env.lax.intOf 1 100)
    let keepOffhostDays ← required items "keep_offhost_days" (env.lax.intOf 1 3650)
    .ok { keepLocalRuns := keepLocalRuns, keepOffhostDays := keepOffhostDays }

def quiesceModes : List (Text × QuiesceMode) :=
  [("fence".toList, .fence), ("manual".toList, .manual), ("none".toList, .none)]

def BackupQuiesceInfo.modelValidate : Value (Foreign Other) → Except (Invalid Refusal) BackupQuiesceInfo
  | .object (.instance (.quiesce x _)) => .ok x
  | v => do
    let items ← env.lax.itemsOf ["mode", "duration_seconds"] v
    let mode ← withDefault items "mode" .none (literalOf quiesceModes)
    let durationSeconds ← withDefault items "duration_seconds" 0 (env.lax.intOf 0 3600)
    .ok { mode := mode, durationSeconds := durationSeconds }

def BackupRpoRto.modelValidate : Value (Foreign Other) → Except (Invalid Refusal) BackupRpoRto
  | .object (.instance (.rpoRto x _)) => .ok x
  | v => do
    let items ← env.lax.itemsOf ["targets_proposed", "rpo_seconds_target", "rto_seconds_target", "rpo_seconds_measured",
      "rto_seconds_measured"] v
    let targetsProposed ← withDefault items "targets_proposed" true fun v => read (env.lax.bool v)
    let rpoSecondsTarget ← required items "rpo_seconds_target" (env.lax.intOf 60 604800)
    let rtoSecondsTarget ← required items "rto_seconds_target" (env.lax.intOf 60 86400)
    let rpoSecondsMeasured ← withDefault items "rpo_seconds_measured" none (nullable (env.lax.intOf 0 604800))
    let rtoSecondsMeasured ← withDefault items "rto_seconds_measured" none (nullable (env.lax.intOf 0 86400))
    .ok { targetsProposed := targetsProposed, rpoSecondsTarget := rpoSecondsTarget, rtoSecondsTarget := rtoSecondsTarget
          rpoSecondsMeasured := rpoSecondsMeasured, rtoSecondsMeasured := rtoSecondsMeasured }

/-- `validate_component_keys`; of a key that comes twice a `dict` has the later value. -/
def validateComponentKeys (value : List (Text × BackupComponent)) : Except Refusal Components := do
  let unknown := (value.map Prod.fst).filter (· ∉ texts ["postgres", "artifacts", "config"])
  raiseIf (unknown ≠ []) (.unknownKeys unknown)
  value.forM fun p => rejectSecretFieldName env p.1
  .ok { postgres := value.reverse.lookup "postgres".toList, artifacts := value.reverse.lookup "artifacts".toList
        config := value.reverse.lookup "config".toList }

def Components.modelValidate (v : Value (Foreign Other)) : Except (Invalid Refusal) Components := do
  let items ← read (env.lax.mapping v)
  let value ← items.mapM fun p => do
    let key ← read (env.lax.text p.1)
    let component ← BackupComponent.modelValidate env p.2
    .ok (key, component)
  raiseIf (value = []) .tooShort
  raiseIf (20 < (value.map Prod.fst).dedup.length) .tooLong
  (validateComponentKeys env value).mapError .raised

def Components.items (x : Components) : List (String × BackupComponent) :=
  x.postgres.toList.map (("postgres", ·)) ++ x.artifacts.toList.map (("artifacts", ·)) ++ x.config.toList.map (("config", ·))

def checkInventory (name : String) (component : BackupComponent) : Except Refusal Unit :=
  if name = "artifacts" then do
    raiseIf (component.objectCount = none) (.value "artifacts component requires object_count")
    raiseIf (component.inventorySha256 = none) (.value "artifacts component requires inventory_sha256")
  else
    raiseIf (component.objectCount ≠ none ∨ component.inventorySha256 ≠ none)
      (.value (name ++ " component must not carry artifact inventory fields"))

/-- What `validate_time_order_and_consistency` asks of a component. -/
def checkComponent (name : String) (component : BackupComponent) : Except Refusal Unit := do
  checkInventory name component
  raiseIf (name = "postgres" ∧ component.format = none) (.value "postgres component requires format")

def validateTimeOrderAndConsistency (m : BackupManifest) : Except Refusal BackupManifest := do
  raiseIf (m.tEnd.micros < m.tStart.micros) (.value "t_end must not precede t_start")
  raiseIf (m.createdAt.micros < m.tStart.micros) (.value "created_at must not precede t_start")
  raiseIf (m.incomplete = false ∧ m.components.postgres = none)
    (.value "complete manifest requires postgres component (set partial=true for subsets)")
  m.components.items.forM fun p => checkComponent p.1 p.2
  raiseIf (∃ artifacts ∈ m.components.artifacts, ∃ count ∈ artifacts.objectCount,
      m.incomplete = false ∧ m.artifactReconciliation.dbRows ≠ count ∧ m.artifactReconciliation.fsObjects ≠ count)
    (.value ("artifact object_count must align with artifact_reconciliation " ++
      "db_rows or fs_objects (or set partial=true)"))
  .ok m

/-- The key of the field `schema_identity`: its alias where that is given, else its own name. -/
def schemaKey (items : List (Value (Foreign Other) × Value (Foreign Other))) : String :=
  if (Value.item? items "schema".toList).isSome then "schema" else "schema_identity"

def timestamp : Value (Foreign Other) → Except (Invalid Refusal) Instant :=
  checked (fun v => read (env.lax.datetime v)) requireAwareUtc

/-- `BackupManifest.model_validate`. -/
def BackupManifest.modelValidate (payload : List (Value (Foreign Other) × Value (Foreign Other))) :
    Except (Invalid Refusal) BackupManifest := do
  let items ← env.lax.itemsOf ["schema_version", "run_id", "created_at", "t_start", "t_end", "hostname", "app",
    schemaKey payload, "config", "components", "artifact_reconciliation", "retention", "quiesce", "rpo_rto", "partial"]
    (.dict payload)
  let _ ← withDefault items "schema_version" () (literalOf [(schemaVersion, ())])
  let runId ← required items "run_id" fun v => read (env.lax.uuid v)
  let createdAt ← required items "created_at" (timestamp env)
  let tStart ← required items "t_start" (timestamp env)
  let tEnd ← required items "t_end" (timestamp env)
  let hostname ← required items "hostname" (checked (env.lax.textOf 1 253) validateHostname)
  let app ← required items "app" (BackupAppIdentity.modelValidate env)
  let schemaIdentity ← required items (schemaKey payload) (BackupSchemaIdentity.modelValidate env)
  let config ← required items "config" (BackupConfigSnapshot.modelValidate env)
  let components ← required items "components" (Components.modelValidate env)
  let artifactReconciliation ← required items "artifact_reconciliation" (ArtifactReconciliation.modelValidate env)
  let retention ← required items "retention" (BackupRetentionMeta.modelValidate env)
  let quiesce ← withDefault items "quiesce" { mode := .none, durationSeconds := 0 } (BackupQuiesceInfo.modelValidate env)
  let rpoRto ← required items "rpo_rto" (BackupRpoRto.modelValidate env)
  let incomplete ← withDefault items "partial" false fun v => read (env.lax.bool v)
  (validateTimeOrderAndConsistency
    { runId := runId, createdAt := createdAt, tStart := tStart, tEnd := tEnd, hostname := hostname, app := app
      schemaIdentity := schemaIdentity, config := config, components := components
      artifactReconciliation := artifactReconciliation, retention := retention, quiesce := quiesce, rpoRto := rpoRto
      incomplete := incomplete }).mapError .raised

/-! ### What a model is written as -/

def textOrNull (t : Option Text) : Json := t.elim .null .str

def intOrNull (n : Option Int) : Json := n.elim .null .num

def BackupAppIdentity.modelDump (x : BackupAppIdentity) : Json :=
  .obj [("git_commit", .str x.gitCommit), ("deploy_path", .str x.deployPath), ("service_name", .str x.serviceName)]

def BackupSchemaIdentity.modelDump (x : BackupSchemaIdentity) : Json :=
  .obj [("alembic_head_expected", .str x.alembicHeadExpected), ("alembic_head_observed", .str x.alembicHeadObserved),
    ("postgres_version", textOrNull x.postgresVersion)]

def ConfigFileHash.modelDump (x : ConfigFileHash) : Json :=
  .obj [("name", .str x.name), ("sha256", .str x.sha256), ("size", .num x.size)]

def BackupConfigSnapshot.modelDump (x : BackupConfigSnapshot) : Json :=
  .obj [("registry_revision", .str x.registryRevision), ("files", .arr (x.files.map ConfigFileHash.modelDump)),
    ("seccomp_sha256", textOrNull x.seccompSha256)]

def BackupComponent.modelDump (x : BackupComponent) : Json :=
  .obj [("filename", .str x.filename), ("sha256_ciphertext", .str x.sha256Ciphertext), ("size_ciphertext", .num x.sizeCiphertext),
    ("cipher", .str x.cipher), ("format", textOrNull x.format), ("object_count", intOrNull x.objectCount),
    ("bytes_logical", intOrNull x.bytesLogical), ("inventory_sha256", textOrNull x.inventorySha256)]

def MissingBlobRecord.modelDump (x : MissingBlobRecord) : Json :=
  .obj [("content_hash", .str x.contentHash), ("storage_state", .str x.storageState)]

def OrphanFileRecord.modelDump (x : OrphanFileRecord) : Json :=
  .obj [("relpath", .str x.relpath), ("action", .str x.action)]

def ArtifactReconciliation.modelDump (x : ArtifactReconciliation) : Json :=
  .obj [("db_rows", .num x.dbRows), ("fs_objects", .num x.fsObjects),
    ("missing_blobs", .arr (x.missingBlobs.map MissingBlobRecord.modelDump)),
    ("orphan_files", .arr (x.orphanFiles.map OrphanFileRecord.modelDump)), ("skipped_symlinks", .num x.skippedSymlinks)]

def BackupRetentionMeta.modelDump (x : BackupRetentionMeta) : Json :=
  .obj [("keep_local_runs", .num x.keepLocalRuns), ("keep_offhost_days", .num x.keepOffhostDays)]

def QuiesceMode.text : QuiesceMode → Text
  | .fence => "fence".toList
  | .manual => "manual".toList
  | .none => "none".toList

def BackupQuiesceInfo.modelDump (x : BackupQuiesceInfo) : Json :=
  .obj [("mode", .str x.mode.text), ("duration_seconds", .num x.durationSeconds)]

def BackupRpoRto.modelDump (x : BackupRpoRto) : Json :=
  .obj [("targets_proposed", .bool x.targetsProposed), ("rpo_seconds_target", .num x.rpoSecondsTarget),
    ("rto_seconds_target", .num x.rtoSecondsTarget), ("rpo_seconds_measured", intOrNull x.rpoSecondsMeasured),
    ("rto_seconds_measured", intOrNull x.rtoSecondsMeasured)]

def Components.modelDump (x : Components) : Json := .obj (x.items.map fun p => (p.1, p.2.modelDump))

/-- `model_dump(mode="json")`, with the aliases. -/
def BackupManifest.modelDump (m : BackupManifest) : List (String × Json) :=
  [("schema_version", .str schemaVersion), ("run_id", .str m.runId.str), ("created_at", .str (env.lax.isoformat m.createdAt)),
    ("t_start", .str (env.lax.isoformat m.tStart)), ("t_end", .str (env.lax.isoformat m.tEnd)), ("hostname", .str m.hostname),
    ("app", m.app.modelDump), ("schema", m.schemaIdentity.modelDump), ("config", m.config.modelDump),
    ("components", m.components.modelDump), ("artifact_reconciliation", m.artifactReconciliation.modelDump),
    ("retention", m.retention.modelDump), ("quiesce", m.quiesce.modelDump), ("rpo_rto", m.rpoRto.modelDump),
    ("partial", .bool m.incomplete)]

/-! ### Validation, storing and loading -/

inductive BackupManifestError where
  | unsupportedVersion
  | refused (r : Refusal)
  /-- A `ValidationError`, by the first of its errors. -/
  | validation (e : Invalid Refusal)
  | unreadable
  | tooLarge
  | notJson
  | notObject
  | notAbsolute
  deriving DecidableEq

/-- What `validate_manifest` takes: a model, or a mapping. -/
inductive Source (Other : Type) where
  | model (m : BackupManifest)
  | mapping (items : List (Value (Foreign Other) × Value (Foreign Other)))

def Source.payload : Source Other → List (Value (Foreign Other) × Value (Foreign Other))
  | model m => Value.ofJsonFields (m.modelDump env)
  | mapping items => items

def hasVersion : Option (Value (Foreign Other)) → Bool
  | some (.str version) => version = schemaVersion
  | _ => false

def validateManifest (manifest : Source Other) : Except BackupManifestError BackupManifest := do
  let payload := manifest.payload env
  raiseIf (hasVersion (Value.item? payload "schema_version".toList) = false) .unsupportedVersion
  (walkRejectSecrets env "$".toList (.dict payload)).mapError .refused
  (BackupManifest.modelValidate env payload).mapError .validation

/-- `json.dumps(...).encode("utf-8")`. -/
def canonicalBytes (m : BackupManifest) : Bytes := utf8 (String.ofList (Json.obj (m.modelDump env)).dumps)

def canonicalManifestJson (manifest : BackupManifest) : Except BackupManifestError Bytes := do
  let validated ← validateManifest env (.model manifest)
  .ok (canonicalBytes env validated)

structure Path where
  absolute : Bool
  parent : List Text
  name : Text
  deriving DecidableEq

def Path.withName (path : Path) (name : Text) : Path := { path with name := name }

/-- `.{path.name}.{uuid}.tmp`. -/
def Path.temporary (path : Path) (uuid : Uuid) : Path :=
  path.withName ('.' :: (path.name ++ '.' :: (uuid.hex ++ ".tmp".toList)))

abbrev Files := Path → Option Bytes

def Files.set (files : Files) (path : Path) (content : Option Bytes) : Files := fun p => if p = path then content else files p

/-- `os.replace`. -/
def Files.replace (files : Files) (source target : Path) : Files := (files.set target (files source)).set source none

/-- What `store_manifest` is about to write. -/
def storable (path : Path) (manifest : BackupManifest) : Except BackupManifestError Bytes := do
  let validated ← validateManifest env (.model manifest)
  let data ← canonicalManifestJson env validated
  raiseIf (path.absolute = false) .notAbsolute
  .ok data

/-- `store_manifest`, with the `uuid4()` of its temporary file. -/
def storeManifest (uuid : Uuid) (path : Path) (manifest : BackupManifest) (files : Files) :
    Except BackupManifestError Text × Files :=
  match storable env path manifest with
  | .error e => (.error e, files)
  | .ok data =>
    let written := (files.set (path.temporary uuid) (some data)).replace (path.temporary uuid) path
    -- `finally`: what is left of the temporary file is removed.
    (.ok (env.sha256 data), written.set (path.temporary uuid) none)

def loadManifest (path : Path) (files : Files) : Except BackupManifestError BackupManifest :=
  match files path with
  | none => .error .unreadable
  | some raw =>
    if 2000000 < raw.length then .error .tooLarge
    else match (decodeUtf8 raw).bind fun s => Value.loads env.float s.toList with
      | none => .error .notJson
      | some (.dict payload) => validateManifest env (.mapping payload)
      | some _ => .error .notObject

end Manifest

end Vuzol.Backup
