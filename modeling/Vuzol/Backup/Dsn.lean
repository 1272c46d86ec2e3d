import Vuzol.Lib.Url

/-! Connection URLs of a restore (`ops/backup/paths.py`): the identity that the guard reads in a URL, and the targets that
    the drivers resolve it to. libpq and SQLAlchemy read the parts of a URL each in a way of its own; how parameters override
    the parts is the same for both. -/

namespace Vuzol.Backup

open Vuzol.Lib

def defaultPostgresPort : Nat := 5432

def matchesLetter (p c : Char) : Bool := c.toLower = p || (p = 's' && c = 'ſ')

/-- `[a-z0-9_]`, ignoring case. -/
def isDriverChar (c : Char) : Bool :=
  ('a' ≤ c.toLower && c.toLower ≤ 'z') || ('0' ≤ c && c ≤ '9') || c = '_' ||
    c = 'İ' || c = 'ı' || c = 'ſ' || c = 'K'

def dropWord : Text → Text → Option Text
  | [], s => some s
  | p :: word, c :: s => if matchesLetter p c then dropWord word s else none
  | _ :: _, [] => none

/-- What is left behind a match of `_POSTGRES_SCHEME_RE`. -/
def dropScheme (s : Text) : Option Text := do
  let s ← dropWord ['p', 'o', 's', 't', 'g', 'r', 'e', 's'] s
  let s := (dropWord ['q', 'l'] s).getD s
  match s with
  | '+' :: s =>
    if (s.takeWhile isDriverChar).isEmpty then none else dropWord [':', '/', '/'] (s.dropWhile isDriverChar)
  | s => dropWord [':', '/', '/'] s

def parseDsn (env : UrlEnv) (dsn : Text) : Except String SplitUrl := do
  let cleaned := strip dsn
  raiseIf (cleaned = []) "DSN must not be empty"
  match dropScheme cleaned with
  | none => .error "DSN must use a postgresql scheme"
  | some rest => urlsplit env rest

def hostName : Text := ['h', 'o', 's', 't']
def hostaddrName : Text := ['h', 'o', 's', 't', 'a', 'd', 'd', 'r']
def portName : Text := ['p', 'o', 'r', 't']
def dbnameName : Text := ['d', 'b', 'n', 'a', 'm', 'e']
def unixPrefix : Text := ['u', 'n', 'i', 'x', ':']
def localhost : Text := ['l', 'o', 'c', 'a', 'l', 'h', 'o', 's', 't']
def loopback : Text := ['1', '2', '7', '.', '0', '.', '0', '.', '1']
def loopback6 : Text := [':', ':', '1']

def unalias (host : Text) : Text := if host = localhost ∨ host = loopback ∨ host = loopback6 then loopback else host

/-- What `normalize_dsn_identity` returns. -/
structure DsnIdentity where
  host : Text
  port : Option Nat
  database : Text
  deriving DecidableEq

/-- `query.get("host") or query.get("hostaddr")`. -/
def hostParams (u : SplitUrl) : List Text := if u.values hostName = [] then u.values hostaddrName else u.values hostName

/-- The host that the guard reads, and whether it is the path of a socket. -/
def guardHost (env : UrlEnv) (u : SplitUrl) : Except String (Text × Bool) :=
  let host := env.lower (u.hostname env)
  if host ≠ [] then .ok (host, false)
  else
    match hostParams u with
    | [] => .error "DSN must include a host"
    | param :: _ =>
      let candidate := unquote param
      if candidate.head? = some '/' then .ok (candidate, true)
      else if env.lower candidate = [] then .error "DSN must include a host"
      else .ok (env.lower candidate, false)

def guardDatabase (u : SplitUrl) : Except String Text := do
  let database := unquote (u.path.dropWhile (· = '/'))
  raiseIf (database = [] ∨ '/' ∈ database) "DSN must include a single database name"
  .ok database

def normalizeDsnIdentity (env : UrlEnv) (dsn : Text) : Except String DsnIdentity := do
  let u ← parseDsn env dsn
  let port ← u.port
  let (host, isSocket) ← guardHost env u
  let database ← guardDatabase u
  if isSocket then .ok { host := unixPrefix ++ host, port := none, database := database }
  else .ok { host := unalias host, port := some (port.getD defaultPostgresPort), database := database }

def databaseNameIsIsolated (database requiredSuffix : Text) : Except String Bool := do
  let suffix := strip requiredSuffix
  raiseIf (suffix = []) "required database suffix must not be empty"
  .ok (suffix.isSuffixOf database || (database.splitOn '_').contains ['d', 'r', 'i', 'l', 'l'])

def DsnIdentity.isLocal (i : DsnIdentity) : Bool := i.host = loopback || unixPrefix.isPrefixOf i.host

def assertIsolatedRestoreDsn (env : UrlEnv) (productionDsn restoreDsn requiredDatabaseSuffix : Text)
    (allowLocalHostsOnly : Bool) : Except String Unit := do
  let prod ← normalizeDsnIdentity env productionDsn
  let rest ← normalizeDsnIdentity env restoreDsn
  raiseIf (rest = prod) "restore DSN must not equal the production DSN identity"
  let isolated ← databaseNameIsIsolated rest.database requiredDatabaseSuffix
  raiseIf (isolated = false) ("restore database name must end with '" ++ String.ofList (strip requiredDatabaseSuffix) ++
    "' or include an underscore-delimited 'drill' segment")
  raiseIf (allowLocalHostsOnly = true ∧ rest.isLocal = false) "restore DSN host must be loopback for drills"

inductive DriverHost where
  | tcp (name : Text)
  | unix (path : Text)
  deriving DecidableEq

structure DriverTarget where
  host : DriverHost
  port : Nat
  database : Text
  deriving DecidableEq

def driverHostOf (env : UrlEnv) (host : Text) : DriverHost :=
  if host.head? = some '/' ∨ host = [] then .unix host else .tcp (unalias (env.lower host))

def DriverHost.isLocal : DriverHost → Bool
  | .tcp name => name = loopback
  | .unix _ => true

/-- What a driver reads in a URL: the parts as they are written, the parameters decoded. -/
structure DriverUrl where
  host : Text
  port : Text
  database : Text
  param : Text → Option Text

namespace DriverUrl

variable (d : DriverUrl)

def hosts : List Text :=
  ((((d.param hostaddrName).filter (· ≠ [])).or (d.param hostName)).getD (unquote d.host)).splitOn ','

/-- One port is that of every host. -/
def ports : List Text :=
  match ((d.param portName).getD (unquote d.port)).splitOn ',' with
  | [port] => List.replicate d.hosts.length port
  | ports => ports

def databaseName : Text := (d.param dbnameName).getD (unquote d.database)

def portNumber (port : Text) : Option Nat := if port = [] then some defaultPostgresPort else SplitUrl.toNat? port

/-- The targets, which are tried one after another. -/
def targets (env : UrlEnv) : List DriverTarget :=
  if d.hosts.length = d.ports.length then
    (d.hosts.zip d.ports).filterMap fun (host, port) =>
      (portNumber port).map fun n => { host := driverHostOf env host, port := n, database := d.databaseName }
  else []

end DriverUrl

def endsNetloc (c : Char) : Bool := c = ':' || c = '/' || c = '?' || c = ','

/-- Behind the user name and the password, which an at sign ends that has no slash in front of it. -/
def libpqUserinfo (s : Text) : Text :=
  match s.dropWhile fun c => c ≠ '@' && c ≠ '/' with
  | '@' :: rest => rest
  | _ => s

def libpqHost : Text → Except String (Text × Text)
  | '[' :: s =>
    match s.dropWhile (· ≠ ']') with
    | [] => .error "end of string reached when looking for a matching bracket"
    | _ :: rest =>
      if before ']' s = [] then .error "IPv6 host address may not be empty"
      else if rest.head?.all endsNetloc then .ok (before ']' s, rest)
      else .error "unexpected character in URI"
  | s => .ok (s.takeWhile fun c => !endsNetloc c, s.dropWhile fun c => !endsNetloc c)

def libpqPort : Text → Text × Text
  | ':' :: s => (s.takeWhile fun c => c ≠ '/' && c ≠ '?' && c ≠ ',', s.dropWhile fun c => c ≠ '/' && c ≠ '?' && c ≠ ',')
  | s => ([], s)

/-- The hosts and the ports, joined with commas, and what is left; every round takes a comma. -/
def libpqNetlocs : Nat → Text → Except String (Text × Text × Text)
  | 0, _ => .error "too many hosts"
  | n + 1, s => do
    let (host, s) ← libpqHost s
    let (port, s) := libpqPort s
    match s with
    | ',' :: s =>
      let (hosts, ports, s) ← libpqNetlocs n s
      .ok (host ++ ',' :: hosts, port ++ ',' :: ports, s)
    | s => .ok (host, port, s)

/-- Every field has one equals sign; the text may end with an ampersand. -/
def libpqParams (query : Text) : Except String (List (Text × Text)) :=
  let fields := query.splitOn '&'
  let fields := if fields.getLast? = some [] then fields.dropLast else fields
  if fields.all fun nv => nv.count '=' = 1 then .ok ((queryFields query).map fun nv => (unquote nv.1, unquote nv.2))
  else .error "invalid URI query parameter"

/-- `conninfo_uri_parse_options`, behind the scheme. Of repeated parameters the last one counts. -/
def libpqUrl (s : Text) : Except String DriverUrl := do
  let (host, port, rest) ← libpqNetlocs (s.length + 1) (libpqUserinfo s)
  let tail := if rest.head? = some '/' then rest.drop 1 else rest
  let params ← libpqParams (after '?' tail)
  .ok {
    host := host
    port := port
    database := before '?' tail
    param := fun name => ((params.filter fun nv => nv.1 = name).map Prod.snd).getLast? }

/-- Behind `(username [^:/]* (:password [^@]*)? @)?`. -/
def sqlalchemyUserinfo (s : Text) : Text :=
  let username := s.takeWhile fun c => c ≠ ':' && c ≠ '/'
  let rest := s.dropWhile fun c => c ≠ ':' && c ≠ '/'
  if rest.head? = some ':' ∧ '@' ∈ rest then after '@' rest
  else if '@' ∈ username then afterLast '@' username ++ rest
  else s

def isAddressChar (c : Char) : Bool := c ≠ '/' && c ≠ '?'

/-- `\[ ipv6host [^/?]+ \] | ipv4host [^/:?]+`. -/
def sqlalchemyHost (s : Text) : Text × Text :=
  let run := (s.drop 1).takeWhile isAddressChar
  let address := ((run.reverse.dropWhile (· ≠ ']')).drop 1).reverse
  if s.head? = some '[' ∧ ']' ∈ run ∧ address ≠ [] then
    (address, afterLast ']' run ++ (s.drop 1).dropWhile isAddressChar)
  else (s.takeWhile fun c => isAddressChar c && c ≠ ':', s.dropWhile fun c => isAddressChar c && c ≠ ':')

def sqlalchemyPort : Text → Text × Text
  | ':' :: s => (s.takeWhile isAddressChar, s.dropWhile isAddressChar)
  | s => ([], s)

/-- A parameter of a URL; the values of a repeated one are joined. -/
def sqlalchemyParam (query name : Text) : Option Text :=
  match ((parseQsl query).filter fun nv => nv.1 = name).map Prod.snd with
  | [] => none
  | values => some ([','].intercalate values)

def isHostnameChar (c : Char) : Bool := c.isAlphanum || c = '-' || c = '.'

def namesPort (host : Text) : Bool := ':' ∈ host && (before ':' host).all isHostnameChar && ':' ∉ after ':' host

/-- `_split_multihost_from_url`: a host parameter may name its port. -/
def hostAndPort? (host : Text) : Option (Text × Text) :=
  if namesPort host && (after ':' host).all Char.isDigit then some (before ':' host, after ':' host) else none

def sqlalchemyParams (query name : Text) : Option Text :=
  match (sqlalchemyParam query hostName).bind hostAndPort?, sqlalchemyParam query portName with
  | some (host, port), none =>
    if name = hostName then some host
    else if name = portName then (if port = [] then none else some port)
    else sqlalchemyParam query name
  | _, _ => sqlalchemyParam query name

/-- `_parse_url`, behind the scheme; the pattern need not match to the end. -/
def sqlalchemyUrl (s : Text) : DriverUrl :=
  let (host, rest) := sqlalchemyHost (sqlalchemyUserinfo s)
  let (port, rest) := sqlalchemyPort rest
  let tail := if rest.head? = some '/' then rest.drop 1 else if rest.head? = some '?' then rest else []
  { host := host
    port := port
    database := before '?' tail
    param := sqlalchemyParams (after '?' tail) }

/-- Where a connection URL leads, as one of the drivers reads it; a URL that a driver refuses leads nowhere. -/
def driverTargets (env : UrlEnv) (dsn : Text) : List DriverTarget :=
  match dropScheme dsn with
  | none => []
  | some rest =>
    (match libpqUrl rest with
      | .ok d => d.targets env
      | .error _ => []) ++ (sqlalchemyUrl rest).targets env

end Vuzol.Backup
