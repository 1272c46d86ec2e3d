import Vuzol.Lib.Split

/-! Python's `ipaddress`: which texts spell an address, and the networks that it lies in. -/

namespace Vuzol.Lib

/-- `_parse_octet`. -/
def octet? (t : Text) : Option Nat :=
  if 3 < t.length ∨ (t ≠ ['0'] ∧ t.head? = some '0') then none else (SplitUrl.toNat? t).filter (· ≤ 255)

/-- `IPv4Address(text)`. -/
def ipv4? (t : Text) : Option Nat :=
  match (t.splitOn '.').mapM octet? with
  | some [a, b, c, d] => some (((a * 256 + b) * 256 + c) * 256 + d)
  | _ => none

/-- `_parse_hextet`. -/
def hextet? (t : Text) : Option Nat :=
  if t = [] ∨ 4 < t.length then none else t.foldlM (fun n c => (hexDigit? c).map (16 * n + ·)) 0

def hextets? (parts : List Text) : Option Nat := parts.foldlM (fun n t => (hextet? t).map (65536 * n + ·)) 0

def splitScopeId (t : Text) : Option (Text × Option Text) :=
  if '%' ∉ t then some (t, none)
  else if after '%' t = [] ∨ '%' ∈ after '%' t then none
  else some (before '%' t, some (after '%' t))

def expandSuffix (parts : List Text) : Option (List Text) :=
  match parts.getLast? with
  | none => some parts
  | some last =>
    if '.' ∉ last then some parts
    else (ipv4? last).map fun v => parts.dropLast ++ [Nat.toDigits 16 (v / 65536), Nat.toDigits 16 (v % 65536)]

/-- The parts on one side of `::`; the side may be empty, at the end of the text. -/
def besideSkip (parts : List Text) (endpoint : Option Text) : Option (List Text) :=
  if endpoint ≠ some [] then some parts else if parts.length = 1 then some [] else none

/-- `IPv6Address._ip_int_from_string` behind the split at the colons. -/
def ipv6OfParts (parts : List Text) : Option Nat :=
  if 9 < parts.length then none
  else
    match (List.range' 1 (parts.length - 2)).filter fun i => parts[i]? = some [] with
    | [] => if parts.length = 8 then hextets? parts else none
    | [i] => do
      let hi ← besideSkip (parts.take i) (parts.take i).head?
      let lo ← besideSkip (parts.drop (i + 1)) (parts.drop (i + 1)).getLast?
      let high ← hextets? hi
      let low ← hextets? lo
      if 8 ≤ hi.length + lo.length then none else some (high * 65536 ^ (8 - hi.length) + low)
    | _ => none

/-- `IPv6Address(text)`. -/
def ipv6? (t : Text) : Option (Nat × Option Text) :=
  if '/' ∈ t then none
  else (splitScopeId t).bind fun (address, scopeId) =>
    let parts := address.splitOn ':'
    if parts.length < 3 then none else ((expandSuffix parts).bind ipv6OfParts).map fun ip => (ip, scopeId)

inductive IpAddress where
  | v4 (ip : Nat)
  | v6 (ip : Nat) (scopeId : Option Text)

/-- `ip_address(text)`; `none` is its `ValueError`. -/
def ipAddress? (t : Text) : Option IpAddress :=
  match ipv4? t with
  | some ip => some (.v4 ip)
  | none => (ipv6? t).map fun (ip, scopeId) => .v6 ip scopeId

structure Network where
  address : Nat
  fixed : Nat

def quad (a b c d : Nat) (fixed : Nat) : Network := ⟨((a * 256 + b) * 256 + c) * 256 + d, fixed⟩

def hextetNetwork (parts : List Nat) (fixed : Nat) : Network :=
  ⟨parts.foldl (65536 * · + ·) 0 * 65536 ^ (8 - parts.length), fixed⟩

def Network.has (bits : Nat) (n : Network) (ip : Nat) : Bool := ip / 2 ^ (bits - n.fixed) = n.address / 2 ^ (bits - n.fixed)

def inNetworks (bits : Nat) (networks exceptions : List Network) (ip : Nat) : Bool :=
  networks.any (·.has bits ip) && exceptions.all fun n => !n.has bits ip

namespace IpAddress

/-- `_IPv4Constants._private_networks`. -/
def privateNetworks4 : List Network :=
  [quad 0 0 0 0 8, quad 10 0 0 0 8, quad 127 0 0 0 8, quad 169 254 0 0 16, quad 172 16 0 0 12, quad 192 0 0 0 24,
    quad 192 0 0 170 31, quad 192 0 2 0 24, quad 192 168 0 0 16, quad 198 18 0 0 15, quad 198 51 100 0 24,
    quad 203 0 113 0 24, quad 240 0 0 0 4, quad 255 255 255 255 32]

def privateExceptions4 : List Network := [quad 192 0 0 9 32, quad 192 0 0 10 32]

/-- `_IPv6Constants._private_networks`. -/
def privateNetworks6 : List Network :=
  [hextetNetwork [0, 0, 0, 0, 0, 0, 0, 1] 128, hextetNetwork [] 128, hextetNetwork [0, 0, 0, 0, 0, 0xFFFF] 96,
    hextetNetwork [0x64, 0xFF9B, 1] 48, hextetNetwork [0x100] 64, hextetNetwork [0x2001] 23, hextetNetwork [0x2001, 0xDB8] 32,
    hextetNetwork [0x2002] 16, hextetNetwork [0x3FFF] 20, hextetNetwork [0xFC00] 7, hextetNetwork [0xFE80] 10]

def privateExceptions6 : List Network :=
  [hextetNetwork [0x2001, 1, 0, 0, 0, 0, 0, 1] 128, hextetNetwork [0x2001, 1, 0, 0, 0, 0, 0, 2] 128,
    hextetNetwork [0x2001, 3] 32, hextetNetwork [0x2001, 4, 0x112] 48, hextetNetwork [0x2001, 0x20] 28,
    hextetNetwork [0x2001, 0x30] 28]

/-- `_IPv6Constants._reserved_networks`. -/
def reservedNetworks6 : List Network :=
  [hextetNetwork [] 8, hextetNetwork [0x100] 8, hextetNetwork [0x200] 7, hextetNetwork [0x400] 6, hextetNetwork [0x800] 5,
    hextetNetwork [0x1000] 4, hextetNetwork [0x4000] 3, hextetNetwork [0x6000] 3, hextetNetwork [0x8000] 3,
    hextetNetwork [0xA000] 3, hextetNetwork [0xC000] 3, hextetNetwork [0xE000] 4, hextetNetwork [0xF000] 5,
    hextetNetwork [0xF800] 6, hextetNetwork [0xFE00] 9]

def ipv4Mapped : IpAddress → Option Nat
  | v4 _ => none
  | v6 ip _ => if ip / 2 ^ 32 = 0xFFFF then some (ip % 2 ^ 32) else none

def isPrivate4 (ip : Nat) : Bool := inNetworks 32 privateNetworks4 privateExceptions4 ip

def isPrivate (a : IpAddress) : Bool :=
  match a, a.ipv4Mapped with
  | v4 ip, _ => isPrivate4 ip
  | v6 _ _, some ip => isPrivate4 ip
  | v6 ip _, none => inNetworks 128 privateNetworks6 privateExceptions6 ip

/-- `is_global`: the shared address space is neither private nor global. -/
def isGlobal : IpAddress → Bool
  | v4 ip => !(quad 100 64 0 0 10).has 32 ip && !isPrivate4 ip
  | v6 ip scopeId => !(v6 ip scopeId).isPrivate

def isLoopback : IpAddress → Bool
  | v4 ip => (quad 127 0 0 0 8).has 32 ip
  | v6 ip _ => ip = 1

def isLinkLocal : IpAddress → Bool
  | v4 ip => (quad 169 254 0 0 16).has 32 ip
  | v6 ip _ => (hextetNetwork [0xFE80] 10).has 128 ip

def isMulticast : IpAddress → Bool
  | v4 ip => (quad 224 0 0 0 4).has 32 ip
  | v6 ip _ => (hextetNetwork [0xFF00] 8).has 128 ip

def isReserved : IpAddress → Bool
  | v4 ip => (quad 240 0 0 0 4).has 32 ip
  | v6 ip _ => reservedNetworks6.any (·.has 128 ip)

def isUnspecified : IpAddress → Bool
  | v4 ip | v6 ip _ => ip = 0

end IpAddress

theorem mem_of_splitScopeId {t address : Text} {scopeId : Option Text} (h : splitScopeId t = some (address, scopeId)) {c : Char}
    (hc : c ∈ address) : c ∈ t := by
  unfold splitScopeId at h
  split at h
  · cases h
    exact hc
  · split at h
    · cases h
    · cases h
      exact mem_of_mem_before hc

theorem ipv6?_of_no_colon {t : Text} (h : ':' ∉ t) : ipv6? t = none := by
  unfold ipv6?
  split
  · rfl
  · cases hsplit : splitScopeId t with
    | none => rfl
    | some r =>
      obtain ⟨address, scopeId⟩ := r
      have hparts : address.splitOn ':' = [address] :=
        List.splitOn_eq_singleton fun hc => h (mem_of_splitScopeId hsplit hc)
      simp [hparts]

theorem octet?_isSome {t : Text} (h : (octet? t).isSome = true) {c : Char} (hc : c ∈ t) : '0' ≤ c ∧ c ≤ '9' := by
  obtain ⟨n, hn⟩ := Option.isSome_iff_exists.mp h
  unfold octet? at hn
  split at hn
  · cases hn
  · obtain ⟨hn, -⟩ := Option.filter_eq_some_iff.mp hn
    unfold SplitUrl.toNat? at hn
    split at hn
    · rename_i hdigits
      simpa using List.all_eq_true.mp hdigits.2 c hc
    · cases hn

theorem mem_of_ipv4? {t : Text} (h : (ipv4? t).isSome = true) {c : Char} (hc : c ∈ t) : c = '.' ∨ ('0' ≤ c ∧ c ≤ '9') := by
  by_cases hdot : c = '.'
  · exact Or.inl hdot
  · obtain ⟨part, hpart, hcpart⟩ := exists_mem_splitOn hc hdot
    unfold ipv4? at h
    split at h
    · rename_i hoctets
      exact Or.inr (octet?_isSome (isSome_of_mapM_some hoctets hpart) hcpart)
    · cases h

end Vuzol.Lib
