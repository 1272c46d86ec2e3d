import Vuzol.Execution.Egress

/-! The proxy that a sandbox connects through (`execution/connect_proxy.py`): its policy, the request of a client, the check
    of the resolved addresses, and the tunnel, as a machine whose steps are what the handler awaits. -/

namespace Vuzol.ConnectProxy

open Vuzol.Lib

/-- A value that `json.loads` returns; a float that is not finite is `none`. -/
inductive PolicyValue where
  | null
  | bool (b : Bool)
  | int (n : Int)
  | float (x : Option Rat)
  | str (t : Text)
  | list (entries : List PolicyValue)
  | dict (fields : List (String × PolicyValue))

namespace PolicyValue

/-- The value `== n`. -/
def equalsInt : PolicyValue → Int → Bool
  | bool b, n => (if b then 1 else 0) = n
  | int m, n => m = n
  | float (some x), n => x = n
  | _, _ => false

/-- What `float` makes of a number; a boolean is none. -/
def number? : PolicyValue → Option (Option Rat)
  | int n => some (some n)
  | float x => some x
  | _ => none

def get? (fields : List (String × PolicyValue)) (key : String) : Option PolicyValue := fields.lookup key

/-- `set(fields) == keys`. -/
def hasKeys (fields : List (String × PolicyValue)) (keys : List String) : Bool :=
  (fields.all fun f => f.1 ∈ keys) && keys.all fun k => (get? fields k).isSome

end PolicyValue

open PolicyValue

structure ConnectProxyPolicy where
  targets : List (Text × Nat)
  connectTimeoutSeconds : Rat
  idleTimeoutSeconds : Rat
  tunnelTimeoutSeconds : Rat
  maximumBytesPerDirection : Nat

/-- One label of a canonical name. The characters are in ASCII, where `isalnum` is `Char.isAlphanum`. -/
def isCanonicalLabel (label : Text) : Bool :=
  1 ≤ label.length && label.length ≤ 63 && label.head?.all Char.isAlphanum && label.getLast?.all Char.isAlphanum &&
    label.all fun c => c.isAlphanum || c = '-'

/-- `_is_canonical_hostname`. A name outside ASCII is refused by its labels, whatever `lower` makes of it. -/
def isCanonicalHostname (hostname : Text) : Bool :=
  hostname ≠ [] && hostname.map Char.toLower = hostname && hostname.length ≤ 253 &&
    hostname.head? ≠ some '.' && hostname.getLast? ≠ some '.' && !(['.', '.'] <:+: hostname : Bool) &&
    hostname ≠ "localhost".toList && hostname ≠ "metadata.google.internal".toList &&
    !".local".toList.isSuffixOf hostname && !".localhost".toList.isSuffixOf hostname &&
    (ipAddress? hostname).isNone && (hostname.splitOn '.').all isCanonicalLabel

def boundedNumber (raw : List (String × PolicyValue)) (key : String) (minimum maximum : Rat) : Except String Rat :=
  match (get? raw key).bind number? with
  | some (some result) =>
    if minimum ≤ result ∧ result ≤ maximum then .ok result else .error s!"proxy policy {key} is out of bounds"
  | some none => .error s!"proxy policy {key} is out of bounds"
  | none => .error s!"proxy policy {key} is invalid"

def boundedInteger (raw : List (String × PolicyValue)) (key : String) (minimum maximum : Int) : Except String Nat :=
  match get? raw key with
  | some (.int n) => if minimum ≤ n ∧ n ≤ maximum then .ok n.toNat else .error s!"proxy policy {key} is invalid"
  | _ => .error s!"proxy policy {key} is invalid"

def loadTarget (item : PolicyValue) : Except String (Text × Nat) :=
  match item with
  | .dict fields =>
    if hasKeys fields ["hostname", "port"] = false then .error "proxy target has an unexpected shape"
    else
      match get? fields "hostname" with
      | some (.str hostname) =>
        if isCanonicalHostname hostname = false then .error "proxy target hostname is not canonical"
        else if (get? fields "port").all (·.equalsInt 443) = false then .error "proxy target port is prohibited"
        else .ok (hostname, 443)
      | _ => .error "proxy target hostname is not canonical"
  | _ => .error "proxy target has an unexpected shape"

def policyItems (raw : List (String × PolicyValue)) : Except String (List PolicyValue) :=
  match get? raw "version", get? raw "targets" with
  | some version, some (.list items) =>
    if version.equalsInt 1 ∧ items.isEmpty = false then .ok items else .error "proxy policy version or targets are invalid"
  | _, _ => .error "proxy policy version or targets are invalid"

/-- `ConnectProxyPolicy.load`, of what the file holds; `none` is a file that is unreadable or no JSON. -/
def ConnectProxyPolicy.load : Option PolicyValue → Except String ConnectProxyPolicy
  | none => .error "proxy policy is unavailable or malformed"
  | some (.dict raw) => do
    raiseIf (hasKeys raw ["version", "targets", "connect_timeout_seconds", "idle_timeout_seconds", "tunnel_timeout_seconds",
      "maximum_bytes_per_direction"] = false) "proxy policy has an unexpected shape"
    let items ← policyItems raw
    let targets ← items.mapM loadTarget
    let connect ← boundedNumber raw "connect_timeout_seconds" (1 / 10) 30
    let idle ← boundedNumber raw "idle_timeout_seconds" 1 300
    let tunnel ← boundedNumber raw "tunnel_timeout_seconds" 1 3600
    let maximum ← boundedInteger raw "maximum_bytes_per_direction" 1024 1073741824
    .ok { targets := targets.dedup, connectTimeoutSeconds := connect, idleTimeoutSeconds := idle,
          tunnelTimeoutSeconds := tunnel, maximumBytesPerDirection := maximum }
  | some _ => .error "proxy policy has an unexpected shape"

/-- `header.decode("ascii")`. -/
def decodeAscii (header : Bytes) : Option Text :=
  if header.all (· < 128) then some (header.map fun b => Char.ofNat b.toNat) else none

/-- `text.split("\r\n")`. -/
def splitCrlf : Text → List Text
  | '\r' :: '\n' :: t => [] :: splitCrlf t
  | c :: t => (splitCrlf t).modifyHead (c :: ·)
  | [] => [[]]

/-- The line is a `Host` header. -/
def isHostHeader (line : Text) : Bool := "host:".toList.isPrefixOf (line.map Char.toLower)

def hostValue (line : Text) : Text := strip (line.drop 5)

/-- The three parts of a request line for a tunnel, with the lines of the fields. -/
def parseConnect (method authority version : Text) (fields : List Text) : Except String (Option (Text × Nat)) := do
  raiseIf (method ≠ "CONNECT".toList ∨ version ≠ "HTTP/1.1".toList) "only HTTP/1.1 CONNECT is supported"
  raiseIf (authority.count ':' ≠ 1) "CONNECT authority must be hostname:port"
  let hostname := before ':' authority
  raiseIf (isCanonicalHostname hostname = false ∨ afterLast ':' authority ≠ "443".toList) "CONNECT authority is prohibited"
  -- Node leaves the default port out of Host, also for CONNECT
  match (fields.filter isHostHeader).map hostValue with
  | [value] => do
    raiseIf (value.map Char.toLower ≠ authority ∧ value.map Char.toLower ≠ hostname) "Host header must match CONNECT authority"
    raiseIf (fields.any (fun line => line.head? = some ' ' || line.head? = some '\t' || !line.contains ':') = true)
      "proxy request contains a malformed header"
    .ok (some (hostname, 443))
  | _ => .error "Host header must match CONNECT authority"

/-- `_parse_connect_request` of the decoded header; `none` is the health check. -/
def parseRequestText (text : Text) : Except String (Option (Text × Nat)) := do
  let lines := splitCrlf text
  raiseIf (lines.drop (lines.length - 2) ≠ [[], []]) "proxy request headers are malformed"
  let request := (lines.headD []).splitOn ' '
  if request = ["GET".toList, "/healthz".toList, "HTTP/1.1".toList] then .ok none
  else
    match request with
    | [method, authority, version] => parseConnect method authority version (lines.dropLast.dropLast.drop 1)
    | _ => .error "only HTTP/1.1 CONNECT is supported"

def parseConnectRequest (header : Bytes) : Except String (Option (Text × Nat)) :=
  match decodeAscii header with
  | some text => parseRequestText text
  | none => .error "proxy request headers must be ASCII"

/-- `reader.readuntil(b"\r\n\r\n")`. -/
def readUntil : Bytes → Option Bytes
  | 13 :: 10 :: 13 :: 10 :: _ => some [13, 10, 13, 10]
  | b :: rest => (readUntil rest).map (b :: ·)
  | [] => none

inductive Family where
  | inet | inet6
  | other (number : Int)
  deriving DecidableEq

structure SockAddr where
  address : Text
  port : Nat
  more : List Nat := []
  deriving DecidableEq

/-- An entry of what `getaddrinfo` returns. -/
structure AddrInfo where
  family : Family
  isSockStream : Bool
  sockaddr : SockAddr

def AddrInfo.isStream (a : AddrInfo) : Bool := (a.family = .inet || a.family = .inet6) && a.isSockStream

def addressIsPublic (address : Text) : Bool :=
  match ipAddress? address with
  | none => false
  | some parsed =>
    parsed.isGlobal && !parsed.isPrivate && !parsed.isLoopback && !parsed.isLinkLocal && !parsed.isMulticast &&
      !parsed.isReserved && !parsed.isUnspecified && parsed.ipv4Mapped.isNone

def addUnique (unique : List (Family × SockAddr)) (a : AddrInfo) : List (Family × SockAddr) :=
  if a.isStream = false then unique
  else if unique.any fun x => x.1 = a.family && x.2.address = a.sockaddr.address then unique
  else unique ++ [(a.family, a.sockaddr)]

def resolvePublic (answers : List AddrInfo) : Except String (Family × SockAddr) :=
  match answers.foldl addUnique [] with
  | [] => .error "approved hostname resolution is empty or excessive"
  | first :: rest =>
    if 16 < (first :: rest).length then .error "approved hostname resolution is empty or excessive"
    else if (first :: rest).any fun x => !addressIsPublic x.2.address then
      .error "approved hostname resolved to a prohibited address"
    else .ok first

inductive Direction where
  | request | response

/-- One `_relay`, with the bytes it has written. -/
structure Relay where
  total : Nat := 0
  forwarded : Bytes := []
  isFinished : Bool := false

/-- A round of `_relay`: it finishes at the end of the stream, and raises beyond the limit. -/
def Relay.read (r : Relay) (maximum : Nat) (chunk : Bytes) : Relay :=
  if chunk = [] then { r with isFinished := true }
  else if maximum < r.total + chunk.length then { r with total := r.total + chunk.length, isFinished := true }
  else { r with total := r.total + chunk.length, forwarded := r.forwarded ++ chunk }

inductive Phase where
  | reading
  | resolving (target : Text × Nat)
  | resolved (pinned : Family × SockAddr)
  | connecting (pinned : Family × SockAddr)
  | tunnel
  | closed
  deriving DecidableEq

/-- A run of `_handle_client`: its locals, and the sockets that it opened. -/
structure Session where
  phase : Phase := .reading
  header : Bytes := []
  answers : List AddrInfo := []
  opened : List (Family × SockAddr) := []
  requestRelay : Relay := {}
  responseRelay : Relay := {}

namespace Session

def relay (s : Session) : Direction → Relay
  | .request => s.requestRelay
  | .response => s.responseRelay

def setRelay (s : Session) (d : Direction) (r : Relay) : Session :=
  match d with
  | .request => { s with requestRelay := r }
  | .response => { s with responseRelay := r }

def close (s : Session) : Session := { s with phase := .closed }

end Session

/-- What an await of the handler returns. -/
inductive SessionOp where
  | receive (sent : Bytes)
  | resolve (answers : List AddrInfo)
  | openSocket
  | established
  /-- A chunk that one of the two relays reads, empty at the end of its stream. -/
  | relay (d : Direction) (chunk : Bytes)
  /-- An exception of what is awaited, a timeout, or the end of the tunnel. -/
  | close

namespace Session

def receiveHeader (policy : ConnectProxyPolicy) (s : Session) (header : Bytes) : Session :=
  if 8192 < header.length then { s with header := header }.close
  else
    match parseConnectRequest header with
    | .ok (some target) =>
      if target ∈ policy.targets then { s with header := header, phase := .resolving target } else { s with header := header }.close
    | _ => { s with header := header }.close

/-- A step of `_handle_client`; an error is a step that it does not take there. -/
def perform (policy : ConnectProxyPolicy) (s : Session) : SessionOp → Except String Session
  | .receive sent =>
    match s.phase, readUntil sent with
    | .reading, some header => .ok (s.receiveHeader policy header)
    | _, _ => .error "not reading"
  | .resolve answers =>
    match s.phase with
    | .resolving _ =>
      match resolvePublic answers with
      | .ok pinned => .ok { s with answers := answers, phase := .resolved pinned }
      | .error _ => .ok { s with answers := answers }.close
    | _ => .error "not resolving"
  | .openSocket =>
    match s.phase with
    | .resolved pinned => .ok { s with phase := .connecting pinned, opened := s.opened ++ [pinned] }
    | _ => .error "nothing resolved"
  | .established =>
    match s.phase with
    | .connecting _ => .ok { s with phase := .tunnel }
    | _ => .error "not connecting"
  | .relay d chunk =>
    if s.phase ≠ .tunnel then .error "no tunnel"
    else if (s.relay d).isFinished then .error "relay finished"
    else .ok (s.setRelay d ((s.relay d).read policy.maximumBytesPerDirection chunk))
  | .close => .ok s.close

abbrev Reaches (policy : ConnectProxyPolicy) (s : Session) : Prop :=
  Lib.Reach (perform policy) (fun _ _ => True) {} s

end Session

/-- `_render_policy` (`execution/proxy_service.py`), as `json.loads` reads it. -/
def renderPolicy (targets : List Egress.AllowedConnectTarget) : Except String PolicyValue := do
  let unique := (targets.map fun t => (t.hostname, t.port)).dedup.mergeSort
    fun a b => a.1 < b.1 || (a.1 = b.1 && a.2 ≤ b.2)
  raiseIf (unique = []) "proxy policy cannot be empty"
  .ok (.dict [("connect_timeout_seconds", .int 10), ("idle_timeout_seconds", .int 120),
    ("maximum_bytes_per_direction", .int 268435456),
    ("targets", .list (unique.map fun t => .dict [("hostname", .str t.1), ("port", .int t.2)])),
    ("tunnel_timeout_seconds", .int 1800), ("version", .int 1)])

end Vuzol.ConnectProxy
