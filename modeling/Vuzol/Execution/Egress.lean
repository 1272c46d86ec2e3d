import Vuzol.Lib.Idna
import Vuzol.Lib.IpAddress
import Vuzol.Lib.Uuid

/-! The targets that a sandbox may connect to (`execution/egress.py`): canonical host names on port 443. -/

namespace Vuzol.Egress

open Vuzol.Lib

/-- What Python takes from the tables of Unicode. -/
structure HostEnv extends Idna where
  /-- `str.lower`. -/
  lower : Text → Text
  /-- `unicodedata.category(c)` begins with `C`. -/
  isOther : Char → Bool
  decimal : Char → Option Nat
  lower_ascii : ∀ {t : Text}, t.all isAscii = true → lower t = t.map Char.toLower
  /-- No letter outside ASCII has a lower case in these. -/
  lower_scheme : ∀ {scheme t : Text}, scheme = "http:".toList ∨ scheme = "https:".toList →
    scheme <+: lower t → scheme <+: t.map Char.toLower
  isOther_ascii : ∀ {c : Char}, 32 < c.toNat → c.toNat < 127 → isOther c = false

/-- The `ValueError`s, with what their messages quote. -/
inductive EgressError where
  | ipLiteral (host : Text)
  | prohibitedHostname (host : Text)
  | invalidHostname (host : Text)
  | emptyHostname
  | invalidCharacters
  | notIdna (host : Text)
  | hostnameLength (hostname : Text)
  | singleLabel (hostname : Text)
  | emptyLabel (hostname : Text)
  | invalidLabel (hostname : Text)
  | emptyProviderHost
  | surroundingWhitespace (raw : Text)
  | notHostname (raw : Text)
  | malformedBracket (raw : Text)
  | malformedPort (raw : Text)
  | wrongPort (port : Int)
  | fieldLength (field : String)
  | targetPort
  | disabledDestinations
  | noDestinations
  | notHttps
  | conflictingPurposes (hostname existing purpose : Text)
  deriving DecidableEq

namespace EgressError

def message : EgressError → String
  | ipLiteral host => let h := String.ofList host; s!"IP literal egress destinations are prohibited: {h}"
  | prohibitedHostname host => let h := String.ofList host; s!"prohibited hostname for egress: {h}"
  | invalidHostname host => let h := String.ofList host; s!"wildcard or invalid hostname prohibited for egress: {h}"
  | emptyHostname => "hostname must not be empty"
  | invalidCharacters => "invalid hostname characters or trailing dot"
  | notIdna host => let h := String.ofList host; s!"invalid hostname for IDNA normalization: {h}"
  | hostnameLength hostname => let h := String.ofList hostname; s!"invalid hostname length: {h}"
  | singleLabel hostname => let h := String.ofList hostname; s!"single-label hostnames are not permitted: {h}"
  | emptyLabel hostname => let h := String.ofList hostname; s!"invalid hostname (empty label): {h}"
  | invalidLabel hostname => let h := String.ofList hostname; s!"invalid DNS label in hostname: {h}"
  | emptyProviderHost => "provider host must not be empty"
  | surroundingWhitespace raw =>
    let r := String.ofList raw; s!"provider host must not contain surrounding whitespace: '{r}'"
  | notHostname raw => let r := String.ofList raw; s!"provider_api_hosts must be hostname or hostname:443, got: {r}"
  | malformedBracket raw => let r := String.ofList raw; s!"malformed IPv6 bracket in provider host: {r}"
  | malformedPort raw => let r := String.ofList raw; s!"malformed port in provider host: {r}"
  | wrongPort port => s!"provider egress must use port 443 (got {port})"
  | fieldLength field => s!"{field} has an invalid length"
  | targetPort => "AllowedConnectTarget port must be exactly 443"
  | disabledDestinations => "disabled network policy cannot declare destinations"
  | noDestinations => "enabled network policy requires at least one destination"
  | notHttps => "egress destinations must use https"
  | conflictingPurposes hostname existing purpose =>
    let h := String.ofList hostname; let e := String.ofList existing; let p := String.ofList purpose
    s!"duplicate canonical target {h}:443 with conflicting purposes: '{e}' vs '{p}'"

end EgressError

def isIpLiteral (host : Text) : Bool := (ipAddress? host).isSome

def localhost : Text := "localhost".toList

def metadataHost : Text := "metadata.google.internal".toList

def isProhibited (h : Text) : Bool :=
  h = localhost || h = metadataHost || ".localhost".toList.isSuffixOf h || ".local".toList.isSuffixOf h

/-- `_is_valid_dns_label`, where the label is in ASCII. -/
def isValidDnsLabel (label : Text) : Bool :=
  1 ≤ label.length && label.length ≤ 63 && label.head?.all Char.isAlphanum && label.getLast?.all Char.isAlphanum &&
    label.all fun c => c.isAlphanum || c = '-'

def validateDnsHostnameStructure (hostname : Text) : Except EgressError Unit := do
  raiseIf (hostname = [] ∨ 253 < hostname.length) (.hostnameLength hostname)
  raiseIf (hostname.getLast? = some '.' ∨ hostname.head? = some '.') .invalidCharacters
  let labels := hostname.splitOn '.'
  raiseIf (labels.length < 2) (.singleLabel hostname)
  raiseIf ([] ∈ labels) (.emptyLabel hostname)
  raiseIf (labels.all isValidDnsLabel = false) (.invalidLabel hostname)

variable (env : HostEnv)

def containsDisallowedChar (s : Text) : Bool := s.any fun c => isSpace c || env.isOther c

def normalizeHostname (host : Text) : Except EgressError Text := do
  raiseIf (host = []) .emptyHostname
  raiseIf (containsDisallowedChar env host = true ∨ host.getLast? = some '.' ∨ host.head? = some '.') .invalidCharacters
  match env.encode host with
  | none => .error (.notIdna host)
  | some encoded => do
    let canon := encoded.map Char.toLower
    validateDnsHostnameStructure canon
    .ok canon

def validateHostname (host : Text) : Except EgressError Text := do
  raiseIf (isIpLiteral host = true) (.ipLiteral host)
  raiseIf (isProhibited (env.lower host) = true) (.prohibitedHostname host)
  raiseIf ('*' ∈ host ∨ host.head? = some '.' ∨ host.getLast? = some '.' ∨ containsDisallowedChar env host = true)
    (.invalidHostname host)
  normalizeHostname env host

structure AllowedConnectTarget where
  hostname : Text
  port : Nat
  purpose : Text
  deriving DecidableEq

/-- `AllowedConnectTarget(...)`. -/
def allowedConnectTarget (hostname : Text) (port : Nat) (purpose : Text) : Except EgressError AllowedConnectTarget := do
  raiseIf (hostname.length < 1 ∨ 1024 < hostname.length) (.fieldLength "hostname")
  let hostname ← validateHostname env hostname
  raiseIf (purpose.length < 1 ∨ 200 < purpose.length) (.fieldLength "purpose")
  raiseIf (port ≠ 443) .targetPort
  .ok { hostname := hostname, port := port, purpose := purpose }

def extractHost (raw : Text) : Text :=
  let raw := strip raw
  if raw = [] then []
  else if raw.head? = some '[' ∧ ']' ∈ raw then (before ']' raw).drop 1
  else if 1 < raw.count ':' then raw
  else if ':' ∈ raw then before ':' raw
  else raw

/-- `int(port_str)`, where a failure is a malformed port. -/
def portOfText (raw port : Text) : Except EgressError Int :=
  match intOfText env.decimal 10 port with
  | some n => .ok n
  | none => .error (.malformedPort raw)

/-- The port that a target spells. -/
def detectPort (raw : Text) : Except EgressError Int := do
  if raw.head? = some '[' then
    raiseIf (']' ∉ raw) (.malformedBracket raw)
    let after := after ']' raw
    if after = [] then .ok 443
    else
      raiseIf (after.head? ≠ some ':' ∨ after.drop 1 = []) (.malformedPort raw)
      portOfText env raw (after.drop 1)
  else if raw.count ':' = 1 then
    let port := afterLast ':' raw
    raiseIf (port = []) (.malformedPort raw)
    portOfText env raw port
  else .ok 443

def parseProviderTarget (raw : Text) : Except EgressError (Text × Nat) := do
  raiseIf (raw = []) .emptyProviderHost
  raiseIf (raw ≠ strip raw) (.surroundingWhitespace raw)
  raiseIf ("://".toList <:+: raw ∨ '@' ∈ raw ∨ '/' ∈ raw ∨ '?' ∈ raw ∨ '#' ∈ raw ∨ "http:".toList <+: env.lower raw ∨
    "https:".toList <+: env.lower raw) (.notHostname raw)
  let port ← detectPort env raw
  raiseIf (port ≠ 443) (.wrongPort port)
  let canon ← validateHostname env (extractHost raw)
  .ok (canon, 443)

structure EgressDestination where
  scheme : String
  host : Option Text
  port : Option Nat
  purpose : Text

structure NetworkPolicy where
  enabled : Bool := false
  destinations : List EgressDestination := []

def validateProxyDestination (host : Text) (port : Nat) : Except EgressError Text := do
  raiseIf (port ≠ 443) (.wrongPort port)
  validateHostname env host

def destinationTarget (dest : EgressDestination) : Except EgressError AllowedConnectTarget := do
  raiseIf (dest.scheme ≠ "https") .notHttps
  let canon ← validateProxyDestination env (dest.host.getD []) ((dest.port.filter (· ≠ 0)).getD 443)
  allowedConnectTarget env canon 443 dest.purpose

def providerTarget (raw : Text) : Except EgressError AllowedConnectTarget := do
  let (canon, _) ← parseProviderTarget env raw
  allowedConnectTarget env canon 443 "provider API endpoint".toList

def addTarget (seen : List AllowedConnectTarget) (t : AllowedConnectTarget) : Except EgressError (List AllowedConnectTarget) :=
  match seen.find? fun x => x.hostname = t.hostname && x.port = t.port with
  | some existing =>
    if existing.purpose ≠ t.purpose then .error (.conflictingPurposes t.hostname existing.purpose t.purpose) else .ok seen
  | none => .ok (seen ++ [t])

def compileProxyAllowlist (policy : NetworkPolicy) (providerApiHosts : List Text) :
    Except EgressError (List AllowedConnectTarget) :=
  if policy.enabled = false then do
    raiseIf (policy.destinations ≠ []) .disabledDestinations
    .ok []
  else do
    raiseIf (policy.destinations = []) .noDestinations
    let targets ← policy.destinations.mapM (destinationTarget env)
    let providers ← (providerApiHosts.filter (· ≠ [])).mapM (providerTarget env)
    let seen ← (targets ++ providers).foldlM addTarget []
    .ok (seen.mergeSort fun a b => a.hostname < b.hostname || (a.hostname = b.hostname && a.port ≤ b.port))

end Vuzol.Egress
