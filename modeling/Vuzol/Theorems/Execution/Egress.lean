import Vuzol.Execution.ConnectProxy

/-! Which host names the policies of egress accept: what a stored name is made of, when it is canonical, and which
    spellings of a provider's target are read. -/

namespace Vuzol.Egress

open Vuzol.Lib ConnectProxy

variable {t : AllowedConnectTarget} {host : Text}

def isHostChar (c : Char) : Bool := c.isAlphanum || c = '-' || c = '.'

theorem isHostChar_range {c : Char} (h : isHostChar c = true) : c.toNat = 45 ∨ c.toNat = 46 ∨ (48 ≤ c.toNat ∧ c.toNat ≤ 57) ∨
    (65 ≤ c.toNat ∧ c.toNat ≤ 90) ∨ (97 ≤ c.toNat ∧ c.toNat ≤ 122) := by
  simp only [isHostChar, Bool.or_eq_true, decide_eq_true_eq] at h
  rcases h with (h | rfl) | rfl
  · exact Or.inr (Or.inr (isAlphanum_range h))
  · decide
  · decide

theorem isAscii_of_isHostChar {c : Char} (h : isHostChar c = true) : isAscii c = true := by
  have hrange := isHostChar_range h
  rw [isAscii, decide_eq_true_eq]
  omega

theorem isSpace_of_isHostChar {c : Char} (h : isHostChar c = true) : isSpace c = false := by
  have hrange := isHostChar_range h
  simp only [isSpace, Bool.or_eq_false_iff, Bool.and_eq_false_iff, decide_eq_false_iff_not]
  omega

theorem isMark_of_isHostChar {c : Char} (h : isHostChar c = true) : isMark c = false := by
  by_contra hmark
  simp only [isMark, Bool.not_eq_false, decide_eq_true_eq, List.mem_cons, List.not_mem_nil, or_false] at hmark
  rcases hmark with rfl | rfl | rfl | rfl | rfl | rfl | rfl <;> revert h <;> decide

/-- What `_validate_dns_hostname_structure` accepts. -/
structure DnsName (c : Text) : Prop where
  short : c.length ≤ 253
  last : c.getLast? ≠ some '.'
  first : c.head? ≠ some '.'
  many : 2 ≤ (c.splitOn '.').length
  labels : ∀ l ∈ c.splitOn '.', isValidDnsLabel l = true

theorem isValidDnsLabel_iff {l : Text} : isValidDnsLabel l = true ↔ 1 ≤ l.length ∧ l.length ≤ 63 ∧
    l.head?.all Char.isAlphanum = true ∧ l.getLast?.all Char.isAlphanum = true ∧ ∀ c ∈ l, c.isAlphanum = true ∨ c = '-' := by
  simp [isValidDnsLabel, and_assoc]

theorem isCanonicalLabel_eq : isCanonicalLabel = isValidDnsLabel := rfl

theorem validateDnsHostnameStructure_eq_ok {c : Text} : validateDnsHostnameStructure c = .ok () ↔ DnsName c := by
  unfold validateDnsHostnameStructure
  simp only [bind_eq_ok, raiseIf_eq_ok, exists_const, not_or]
  constructor
  · rintro ⟨⟨-, hshort⟩, ⟨hlast, hfirst⟩, hmany, -, hlabels⟩
    rw [Bool.not_eq_false, List.all_eq_true] at hlabels
    exact { short := by omega, last := hlast, first := hfirst, many := by omega, labels := hlabels }
  · rintro ⟨hshort, hlast, hfirst, hmany, hlabels⟩
    refine ⟨⟨?_, by omega⟩, ⟨hlast, hfirst⟩, by omega, fun hnil => ?_, ?_⟩
    · rintro rfl
      simp at hmany
    · exact absurd (isValidDnsLabel_iff.mp (hlabels [] hnil)).1 (by simp)
    · rw [Bool.not_eq_false, List.all_eq_true]
      exact hlabels

namespace DnsName
variable {c : Text} (N : DnsName c)
include N

theorem isHostChar {ch : Char} (h : ch ∈ c) : Egress.isHostChar ch = true := by
  by_cases hdot : ch = '.'
  · rw [hdot]
    rfl
  · obtain ⟨l, hl, hmem⟩ := exists_mem_splitOn h hdot
    simp only [Egress.isHostChar, Bool.or_eq_true, decide_eq_true_eq]
    exact Or.inl ((isValidDnsLabel_iff.mp (N.labels l hl)).2.2.2.2 ch hmem)

theorem ascii : c.all isAscii = true := List.all_eq_true.mpr fun _ h => isAscii_of_isHostChar (N.isHostChar h)

theorem no_mark {ch : Char} (h : isMark ch = true) : ch ∉ c := fun hmem => by
  rw [isMark_of_isHostChar (N.isHostChar hmem)] at h
  cases h

theorem ne_nil : c ≠ [] := by
  rintro rfl
  have hmany := N.many
  simp at hmany

theorem plainLabels : Idna.plainLabels (c.splitOn '.') = true := by
  have hlabel : ∀ l ∈ c.splitOn '.', 0 < l.length ∧ l.length < 64 := fun l hl => by
    have hvalid := isValidDnsLabel_iff.mp (N.labels l hl)
    omega
  simp only [Idna.plainLabels, Bool.and_eq_true, List.all_eq_true, decide_eq_true_eq]
  refine ⟨fun l hl => hlabel l (List.dropLast_subset _ hl), ?_⟩
  cases hlast : (c.splitOn '.').getLast? with
  | none => rfl
  | some l => simpa using (hlabel l (List.mem_of_getLast? hlast)).2

theorem containsDisallowedChar (env : HostEnv) : containsDisallowedChar env c = false := by
  rw [Egress.containsDisallowedChar, List.any_eq_false]
  intro ch hch
  have hhost := N.isHostChar hch
  have hrange := isHostChar_range hhost
  rw [isSpace_of_isHostChar hhost, env.isOther_ascii (by omega) (by omega)]
  simp

theorem star_not_mem : '*' ∉ c := fun h => absurd (N.isHostChar h) (by decide)

end DnsName

variable {env : HostEnv}

/-- What `_validate_hostname` makes of a name: it lets it pass, and its encoding in lower case is a DNS name. -/
structure Validated (env : HostEnv) (host c : Text) : Prop where
  ip : isIpLiteral host = false
  prohibited : isProhibited (env.lower host) = false
  star : '*' ∉ host
  first : host.head? ≠ some '.'
  last : host.getLast? ≠ some '.'
  plain : containsDisallowedChar env host = false
  ne_nil : host ≠ []
  encoded : (env.encode host).map (List.map Char.toLower) = some c
  name : DnsName c

theorem normalizeHostname_eq_ok {host c : Text} : normalizeHostname env host = .ok c ↔ host ≠ [] ∧
    ¬(containsDisallowedChar env host = true ∨ host.getLast? = some '.' ∨ host.head? = some '.') ∧
      (env.encode host).map (List.map Char.toLower) = some c ∧ DnsName c := by
  unfold normalizeHostname
  simp only [bind_eq_ok, raiseIf_eq_ok, exists_const]
  refine and_congr_right fun _ => and_congr_right fun _ => ?_
  cases env.encode host with
  | none => simp
  | some encoded =>
    simp only [bind_eq_ok, Except.ok.injEq, Option.map_some, Option.some.injEq]
    constructor
    · rintro ⟨u, hu, rfl⟩
      exact ⟨rfl, validateDnsHostnameStructure_eq_ok.mp hu⟩
    · rintro ⟨rfl, N⟩
      exact ⟨(), validateDnsHostnameStructure_eq_ok.mpr N, rfl⟩

theorem validateHostname_eq_ok {c : Text} : validateHostname env host = .ok c ↔ Validated env host c := by
  unfold validateHostname
  simp only [bind_eq_ok, raiseIf_eq_ok, exists_const, normalizeHostname_eq_ok]
  constructor
  · rintro ⟨hip, hprohibited, hplain, hnil, -, hencoded, N⟩
    rw [not_or, not_or, not_or] at hplain
    exact { ip := Bool.not_eq_true _ ▸ hip, prohibited := Bool.not_eq_true _ ▸ hprohibited, star := hplain.1,
            first := hplain.2.1, last := hplain.2.2.1, plain := Bool.not_eq_true _ ▸ hplain.2.2.2, ne_nil := hnil,
            encoded := hencoded, name := N }
  · intro V
    refine ⟨by simp [V.ip], by simp [V.prohibited], ?_, V.ne_nil, ?_, V.encoded, V.name⟩
    · simp [V.star, V.first, V.last, V.plain]
    · simp [V.first, V.last, V.plain]

theorem Validated.map_toLower {c : Text} (V : Validated env host c) : c.map Char.toLower = c := by
  obtain ⟨encoded, -, rfl⟩ := Option.map_eq_some_iff.mp V.encoded
  rw [List.map_map]
  exact List.map_congr_left fun ch _ => toLower_toLower ch

theorem Validated.unique {c c' : Text} (V : Validated env host c) (V' : Validated env host c') : c = c' :=
  Option.some.inj (V.encoded.symm.trans V'.encoded)

theorem DnsName.validated {c : Text} (N : DnsName c) (hlower : c.map Char.toLower = c) (hip : isIpLiteral c = false)
    (hprohibited : isProhibited c = false) : Validated env c c where
  ip := hip
  prohibited := by rwa [env.lower_ascii N.ascii, hlower]
  star := N.star_not_mem
  first := N.first
  last := N.last
  plain := N.containsDisallowedChar env
  ne_nil := N.ne_nil
  encoded := by rw [env.encode_ascii N.ascii N.plainLabels, Option.map_some, hlower]
  name := N

theorem isProhibited_eq_false {h : Text} : isProhibited h = false ↔ h ≠ localhost ∧ h ≠ metadataHost ∧
    ".localhost".toList.isSuffixOf h = false ∧ ".local".toList.isSuffixOf h = false := by
  rw [isProhibited, Bool.or_eq_false_iff, Bool.or_eq_false_iff, Bool.or_eq_false_iff, decide_eq_false_iff_not,
    decide_eq_false_iff_not, and_assoc, and_assoc]

theorem DnsName.isCanonicalHostname {c : Text} (N : DnsName c) (hlower : c.map Char.toLower = c)
    (hip : isIpLiteral c = false) (hprohibited : isProhibited c = false) : isCanonicalHostname c = true := by
  have hdots : ¬['.', '.'] <:+: c := fun h =>
    absurd (isValidDnsLabel_iff.mp (N.labels [] (nil_mem_splitOn_of_double h))).1 (by simp)
  have haddress : (ipAddress? c).isNone = true := by
    rw [Option.isNone_iff_eq_none, ← Option.not_isSome_iff_eq_none, Bool.not_eq_true]
    exact hip
  obtain ⟨hlocalhost, hmetadata, hsub, hlocal⟩ := isProhibited_eq_false.mp hprohibited
  simp only [ConnectProxy.isCanonicalHostname, isCanonicalLabel_eq, Bool.and_eq_true, Bool.not_eq_true', List.all_eq_true]
  refine ⟨⟨⟨⟨⟨⟨⟨⟨⟨⟨⟨?_, ?_⟩, ?_⟩, ?_⟩, ?_⟩, ?_⟩, ?_⟩, ?_⟩, hlocal⟩, hsub⟩, haddress⟩, N.labels⟩
  · exact decide_eq_true N.ne_nil
  · exact decide_eq_true hlower
  · exact decide_eq_true N.short
  · exact decide_eq_true N.first
  · exact decide_eq_true N.last
  · exact decide_eq_false hdots
  · exact decide_eq_true hlocalhost
  · exact decide_eq_true hmetadata

theorem isIpLiteral_of_no_colon {h : Text} (hcolon : ':' ∉ h) (hx : 'x' ∈ h) : isIpLiteral h = false := by
  have hfour : ipv4? h = none := by
    rw [Option.eq_none_iff_forall_ne_some]
    intro ip hip
    rcases mem_of_ipv4? (hip ▸ rfl) hx with hc | ⟨-, hc⟩
    · cases hc
    · revert hc
      decide
  unfold isIpLiteral ipAddress?
  rw [hfour, ipv6?_of_no_colon hcolon]
  rfl

theorem isProhibited_iff {h : Text} : isProhibited h = true ↔ h = localhost ∨ h = metadataHost ∨
    '.' :: "localhost".toList <:+ h ∨ '.' :: "local".toList <:+ h := by
  rw [isProhibited, Bool.or_eq_true, Bool.or_eq_true, Bool.or_eq_true, decide_eq_true_eq, decide_eq_true_eq,
    List.isSuffixOf_iff_suffix, List.isSuffixOf_iff_suffix, or_assoc, or_assoc]
  rfl

section Alike
variable {xs rs : List Text} (h : List.Forall₂ Idna.Alike xs rs)
include h

theorem isProhibited_of_alike (hx : isProhibited (['.'].intercalate xs) = true) :
    isProhibited (['.'].intercalate rs) = true := by
  rcases Idna.alike_cases h with rfl | hmem
  · exact hx
  · have hdash := (hmem '-' (by decide)).1
    rcases isProhibited_iff.mp hx with heq | heq | hs | hs
    · rw [heq] at hdash
      exact absurd hdash (by decide)
    · rw [heq] at hdash
      exact absurd hdash (by decide)
    · exact isProhibited_iff.mpr (Or.inr (Or.inr (Or.inl (Idna.suffix_join h [] (by decide) (by decide) hs))))
    · exact isProhibited_iff.mpr (Or.inr (Or.inr (Or.inr (Idna.suffix_join h [] (by decide) (by decide) hs))))

theorem isProhibited_alike : isProhibited (['.'].intercalate rs) = isProhibited (['.'].intercalate xs) :=
  Bool.eq_iff_iff.mpr ⟨isProhibited_of_alike (Idna.alike_symm h), isProhibited_of_alike h⟩

theorem isIpLiteral_alike (hcolon : ∀ x ∈ xs, ':' ∉ x) :
    isIpLiteral (['.'].intercalate rs) = isIpLiteral (['.'].intercalate xs) := by
  rcases Idna.alike_cases h with rfl | hmem
  · rfl
  · have hreadings : ∀ r ∈ rs, ':' ∉ r := by
      clear hmem
      induction h with
      | nil => simp
      | cons hx _ ih =>
        have hrest := ih fun x hx => hcolon x (List.mem_cons_of_mem _ hx)
        intro r hr
        rcases List.mem_cons.mp hr with rfl | hr
        · rcases hx with rfl | ⟨-, hr⟩
          · exact hcolon _ List.mem_cons_self
          · exact hr.colon
        · exact hrest r hr
    have hjoin : ∀ {ls : List Text}, (∀ l ∈ ls, ':' ∉ l) → ':' ∉ ['.'].intercalate ls := fun hls hc => by
      rcases of_mem_intercalate hc with hc | ⟨l, hl, hc⟩
      · cases hc
      · exact hls l hl hc
    obtain ⟨hxs, hrs⟩ := hmem 'x' (by decide)
    rw [isIpLiteral_of_no_colon (hjoin hreadings) hrs, isIpLiteral_of_no_colon (hjoin hcolon) hxs]

end Alike

theorem Validated.labels {c : Text} (V : Validated env host c) (h : host.all isAscii = false) :
    ∃ outs, (host.splitOnP Idna.isDot).mapM env.toAscii = some outs ∧ c = ['.'].intercalate (outs.map (List.map Char.toLower)) := by
  obtain ⟨encoded, hencoded, hc⟩ := Option.map_eq_some_iff.mp V.encoded
  unfold Idna.encode at hencoded
  rw [if_neg V.ne_nil, h, if_neg Bool.false_ne_true] at hencoded
  obtain ⟨outs, houts, hjoin⟩ := Option.map_eq_some_iff.mp hencoded
  by_cases htrailing : (host.splitOnP Idna.isDot).getLast? = some []
  · rw [if_pos htrailing] at hjoin
    refine absurd ?_ V.name.last
    rw [← hc, ← hjoin, List.map_append, List.map_singleton, List.getLast?_concat]
    rfl
  · rw [if_neg htrailing] at houts
    rw [if_neg htrailing, List.append_nil] at hjoin
    refine ⟨outs, houts, ?_⟩
    rw [← hc, ← hjoin, map_intercalate]
    rfl

theorem Validated.reading {c : Text} (V : Validated env host c) :
    isIpLiteral (env.asciiReading host) = isIpLiteral c ∧ isProhibited (env.asciiReading host) = isProhibited c := by
  by_cases hascii : host.all isAscii = true
  · have hc : c = host.map Char.toLower := by
      obtain ⟨encoded, hencoded, hc⟩ := Option.map_eq_some_iff.mp V.encoded
      rw [← hc, env.encode_eq_some_ascii hascii hencoded]
    rw [env.asciiReading_ascii hascii, hc]
    exact ⟨rfl, rfl⟩
  · obtain ⟨outs, houts, rfl⟩ := V.labels (Bool.not_eq_true _ ▸ hascii)
    have hcolon : ∀ x ∈ outs.map (List.map Char.toLower), ':' ∉ x := fun x hx hc =>
      V.name.no_mark (show isMark ':' = true by decide) (mem_intercalate hx hc)
    have halike : List.Forall₂ Idna.Alike (outs.map (List.map Char.toLower))
        ((host.splitOnP Idna.isDot).map fun l => (env.readLabel l).map Char.toLower) := by
      have hall := forall₂_of_mapM_some houts
      clear houts V
      generalize host.splitOnP Idna.isDot = labels at hall
      induction hall with
      | nil => exact .nil
      | cons hout _ ih =>
        exact .cons (env.alike_of_toAscii hout (hcolon _ List.mem_cons_self))
          (ih fun x hx => hcolon x (List.mem_cons_of_mem _ hx))
    have hreading : env.asciiReading host =
        ['.'].intercalate ((host.splitOnP Idna.isDot).map fun l => (env.readLabel l).map Char.toLower) := by
      rw [Idna.asciiReading, map_intercalate, List.map_map]
      rfl
    rw [hreading]
    exact ⟨isIpLiteral_alike halike hcolon, isProhibited_alike halike⟩

theorem Validated.no_mark {c : Text} (V : Validated env host c) {ch : Char} (h : isMark ch = true) : ch ∉ host := by
  intro hmem
  refine V.name.no_mark h ?_
  obtain ⟨-, hdot, hlower⟩ := Idna.isMark_ascii h
  by_cases hascii : host.all isAscii = true
  · obtain ⟨encoded, hencoded, rfl⟩ := Option.map_eq_some_iff.mp V.encoded
    rw [env.encode_eq_some_ascii hascii hencoded]
    exact List.mem_map.mpr ⟨ch, hmem, hlower⟩
  · obtain ⟨outs, houts, rfl⟩ := V.labels (Bool.not_eq_true _ ▸ hascii)
    obtain ⟨l, hl, hchl⟩ := exists_mem_splitOnP.mpr ⟨hmem, hdot⟩
    obtain ⟨out, hout, hl⟩ := exists_of_mapM_some houts hl
    exact mem_intercalate (List.mem_map.mpr ⟨out, hl, rfl⟩)
      (List.mem_map.mpr ⟨ch, env.mark_mem_toAscii hout h hchl, hlower⟩)

theorem allowedConnectTarget_eq_ok {h purpose : Text} {port : Nat} :
    allowedConnectTarget env h port purpose = .ok t ↔ (1 ≤ h.length ∧ h.length ≤ 1024) ∧
      (1 ≤ purpose.length ∧ purpose.length ≤ 200) ∧ port = 443 ∧ Validated env h t.hostname ∧ t.port = 443 ∧
        t.purpose = purpose := by
  unfold allowedConnectTarget
  simp only [bind_eq_ok, raiseIf_eq_ok, exists_const, not_or, not_lt, not_not, Except.ok.injEq, validateHostname_eq_ok]
  constructor
  · rintro ⟨hlength, c, V, hpurpose, rfl, rfl⟩
    exact ⟨hlength, hpurpose, rfl, V, rfl, rfl⟩
  · rintro ⟨hlength, hpurpose, rfl, V, hport, rfl⟩
    obtain ⟨hostname, port, purpose⟩ := t
    exact ⟨hlength, hostname, V, hpurpose, rfl, by rw [← hport]⟩

structure Canonical (env : HostEnv) (c : Text) : Prop where
  fixed : ∀ purpose : Text, 1 ≤ purpose.length → purpose.length ≤ 200 →
    allowedConnectTarget env c 443 purpose = .ok { hostname := c, port := 443, purpose := purpose }
  ip : isIpLiteral c = false
  prohibited : isProhibited c = false
  proxy : isCanonicalHostname c = true

theorem DnsName.canonical {c : Text} (N : DnsName c) (hlower : c.map Char.toLower = c) (hip : isIpLiteral c = false)
    (hprohibited : isProhibited c = false) : Canonical env c where
  fixed purpose hmin hmax := by
    have hpos := List.length_pos_iff.mpr N.ne_nil
    have hshort := N.short
    exact allowedConnectTarget_eq_ok.mpr ⟨⟨by omega, by omega⟩, ⟨hmin, hmax⟩, rfl, N.validated hlower hip hprohibited, rfl, rfl⟩
  ip := hip
  prohibited := hprohibited
  proxy := N.isCanonicalHostname hlower hip hprohibited

theorem canonical_iff {h purpose : Text} {port : Nat} (ht : allowedConnectTarget env h port purpose = .ok t) :
    Canonical env t.hostname ↔
      isIpLiteral (env.asciiReading h) = false ∧ isProhibited (env.asciiReading h) = false := by
  obtain ⟨-, -, -, V, -, -⟩ := allowedConnectTarget_eq_ok.mp ht
  rw [V.reading.1, V.reading.2]
  exact ⟨fun C => ⟨C.ip, C.prohibited⟩, fun ⟨hip, hprohibited⟩ => V.name.canonical V.map_toLower hip hprohibited⟩

theorem Validated.canonical_of_twice {c c' : Text} (V : Validated env host c) (V' : Validated env c c') :
    Canonical env c' := by
  have hprohibited : isProhibited c = false := by
    have h := V'.prohibited
    rwa [env.lower_ascii V.name.ascii, V.map_toLower] at h
  have hc' : c = c' := (V.name.validated V.map_toLower V'.ip hprohibited).unique V'
  rw [← hc']
  exact V.name.canonical V.map_toLower V'.ip hprohibited

theorem canonical_of_destinationTarget {dest : EgressDestination} (h : destinationTarget env dest = .ok t) :
    Canonical env t.hostname ∧ t.port = 443 := by
  unfold destinationTarget validateProxyDestination at h
  simp only [bind_eq_ok, validateHostname_eq_ok] at h
  obtain ⟨-, -, canon, ⟨-, -, V⟩, h⟩ := h
  obtain ⟨-, -, -, V', hport, -⟩ := allowedConnectTarget_eq_ok.mp h
  exact ⟨V.canonical_of_twice V', hport⟩

theorem canonical_of_providerTarget {raw : Text} (h : providerTarget env raw = .ok t) :
    Canonical env t.hostname ∧ t.port = 443 := by
  unfold providerTarget parseProviderTarget at h
  simp only [bind_eq_ok, validateHostname_eq_ok] at h
  obtain ⟨r, ⟨-, -, -, -, -, -, port, -, -, -, canon, V, hr⟩, h⟩ := h
  cases hr
  obtain ⟨-, -, -, V', hport, -⟩ := allowedConnectTarget_eq_ok.mp h
  exact ⟨V.canonical_of_twice V', hport⟩

theorem addTarget_eq_ok {seen seen' : List AllowedConnectTarget} (h : addTarget seen t = .ok seen') :
    seen' ≠ [] ∧ ∀ x ∈ seen', x ∈ seen ∨ x = t := by
  unfold addTarget at h
  split at h
  · rename_i existing hexisting
    split at h
    · cases h
    · cases h
      exact ⟨List.ne_nil_of_mem (List.mem_of_find?_eq_some hexisting), fun x hx => Or.inl hx⟩
  · cases h
    exact ⟨by simp, fun x hx => (List.mem_append.mp hx).imp_right List.mem_singleton.mp⟩

theorem foldlM_addTarget {seen seen' targets : List AllowedConnectTarget} (h : targets.foldlM addTarget seen = .ok seen') :
    (targets = [] ∨ seen' ≠ []) ∧ ∀ x ∈ seen', x ∈ seen ∨ x ∈ targets := by
  induction targets generalizing seen with
  | nil =>
    cases h
    exact ⟨Or.inl rfl, fun x hx => Or.inl hx⟩
  | cons t targets ih =>
    rw [List.foldlM_cons] at h
    obtain ⟨next, hnext, h⟩ := bind_eq_ok.mp h
    obtain ⟨hne, hmem⟩ := addTarget_eq_ok hnext
    obtain ⟨htail, hseen⟩ := ih h
    refine ⟨Or.inr ?_, fun x hx => ?_⟩
    · rcases htail with rfl | hne'
      · cases h
        exact hne
      · exact hne'
    · rcases hseen x hx with hx | hx
      · exact (hmem x hx).imp_right fun heq => List.mem_cons.mpr (Or.inl heq)
      · exact Or.inr (List.mem_cons_of_mem t hx)

theorem compileProxyAllowlist_canonical {policy : NetworkPolicy} {hosts : List Text} {targets : List AllowedConnectTarget}
    (henabled : policy.enabled = true) (h : compileProxyAllowlist env policy hosts = .ok targets) :
    targets ≠ [] ∧ ∀ t ∈ targets, Canonical env t.hostname ∧ t.port = 443 := by
  unfold compileProxyAllowlist at h
  rw [henabled, if_neg (by simp)] at h
  simp only [bind_eq_ok, raiseIf_eq_ok, exists_const] at h
  obtain ⟨hdestinations, declared, hdeclared, providers, hproviders, seen, hseen, h⟩ := h
  obtain ⟨hne, hmem⟩ := foldlM_addTarget hseen
  have hfirst : declared ≠ [] := by
    rintro rfl
    exact hdestinations (List.forall₂_nil_right_iff.mp (forall₂_of_mapM hdeclared))
  cases h
  refine ⟨?_, fun t ht => ?_⟩
  · rw [Ne, ← List.length_eq_zero_iff, List.length_mergeSort, List.length_eq_zero_iff]
    exact hne.resolve_left fun hnil => hfirst (List.append_eq_nil_iff.mp hnil).1
  · rcases hmem t (List.mem_mergeSort.mp ht) with ht | ht
    · cases ht
    · rcases List.mem_append.mp ht with ht | ht
      · exact forall_of_mapM (fun _ _ => canonical_of_destinationTarget) hdeclared t ht
      · exact forall_of_mapM (fun _ _ => canonical_of_providerTarget) hproviders t ht

theorem loadTarget_of_canonical {hostname : Text} (h : isCanonicalHostname hostname = true) :
    loadTarget (.dict [("hostname", .str hostname), ("port", .int 443)]) = .ok (hostname, 443) := by
  have hkeys : PolicyValue.hasKeys [("hostname", .str hostname), ("port", .int 443)] ["hostname", "port"] = true := rfl
  have hhost : PolicyValue.get? [("hostname", .str hostname), ("port", .int 443)] "hostname" = some (.str hostname) := rfl
  have hport : PolicyValue.get? [("hostname", .str hostname), ("port", .int 443)] "port" = some (.int 443) := rfl
  simp [loadTarget, hkeys, hhost, hport, h, PolicyValue.equalsInt]

theorem boundedNumber_int {raw : List (String × PolicyValue)} {key : String} {n : Int} {low high : Rat}
    (hget : PolicyValue.get? raw key = some (.int n)) (hlow : low ≤ n) (hhigh : n ≤ high) :
    boundedNumber raw key low high = .ok n := by
  unfold boundedNumber
  rw [hget]
  exact if_pos ⟨hlow, hhigh⟩

theorem load_rendered {targets : List (Text × Nat)} (hne : targets ≠ [])
    (h : ∀ t ∈ targets, isCanonicalHostname t.1 = true ∧ t.2 = 443) :
    ∃ p, ConnectProxyPolicy.load (some (.dict [("connect_timeout_seconds", .int 10), ("idle_timeout_seconds", .int 120),
      ("maximum_bytes_per_direction", .int 268435456),
      ("targets", .list (targets.map fun t => .dict [("hostname", .str t.1), ("port", .int t.2)])),
      ("tunnel_timeout_seconds", .int 1800), ("version", .int 1)])) = .ok p ∧ p.targets = targets.dedup := by
  have hitems : (targets.map fun t => PolicyValue.dict [("hostname", .str t.1), ("port", .int t.2)]).mapM loadTarget =
      .ok targets := by
    clear hne
    induction targets with
    | nil => rfl
    | cons t targets ih =>
      obtain ⟨hcanonical, hport⟩ := h t List.mem_cons_self
      rw [List.map_cons, List.mapM_cons, hport, Nat.cast_ofNat, loadTarget_of_canonical hcanonical,
        ih fun t ht => h t (List.mem_cons_of_mem _ ht)]
      obtain ⟨hostname, port⟩ := t
      cases hport
      rfl
  have hfull : (targets.map fun t => PolicyValue.dict [("hostname", .str t.1), ("port", .int t.2)]).isEmpty = false := by
    rw [List.isEmpty_map]
    exact List.isEmpty_eq_false_iff.mpr hne
  generalize (targets.map fun t => PolicyValue.dict [("hostname", .str t.1), ("port", .int t.2)]) = items at hitems hfull
  generalize hraw : [("connect_timeout_seconds", PolicyValue.int 10), ("idle_timeout_seconds", .int 120),
    ("maximum_bytes_per_direction", .int 268435456), ("targets", .list items), ("tunnel_timeout_seconds", .int 1800),
    ("version", .int 1)] = raw
  have hkeys : PolicyValue.hasKeys raw ["version", "targets", "connect_timeout_seconds", "idle_timeout_seconds",
      "tunnel_timeout_seconds", "maximum_bytes_per_direction"] = true := by
    rw [← hraw]
    rfl
  have hpolicy : policyItems raw = .ok items := by
    rw [← hraw]
    exact if_pos ⟨rfl, hfull⟩
  have hconnect : boundedNumber raw "connect_timeout_seconds" (1 / 10) 30 = .ok ((10 : Int) : Rat) :=
    boundedNumber_int (by rw [← hraw]; rfl) (by norm_num) (by norm_num)
  have hidle : boundedNumber raw "idle_timeout_seconds" 1 300 = .ok ((120 : Int) : Rat) :=
    boundedNumber_int (by rw [← hraw]; rfl) (by norm_num) (by norm_num)
  have htunnel : boundedNumber raw "tunnel_timeout_seconds" 1 3600 = .ok ((1800 : Int) : Rat) :=
    boundedNumber_int (by rw [← hraw]; rfl) (by norm_num) (by norm_num)
  have hmaximum : boundedInteger raw "maximum_bytes_per_direction" 1024 1073741824 = .ok 268435456 := by
    rw [← hraw]
    rfl
  refine ⟨{ targets := targets.dedup, connectTimeoutSeconds := ((10 : Int) : Rat), idleTimeoutSeconds := ((120 : Int) : Rat),
            tunnelTimeoutSeconds := ((1800 : Int) : Rat), maximumBytesPerDirection := 268435456 }, ?_, rfl⟩
  unfold ConnectProxyPolicy.load
  dsimp only
  rw [raiseIf_of_not (by simp [hkeys]), ok_bind, hpolicy, ok_bind, hitems, ok_bind, hconnect, ok_bind, hidle, ok_bind,
    htunnel, ok_bind, hmaximum, ok_bind]

theorem load_compiled {policy : NetworkPolicy} {hosts : List Text} {targets : List AllowedConnectTarget}
    (henabled : policy.enabled = true) (h : compileProxyAllowlist env policy hosts = .ok targets) :
    ∃ value p, renderPolicy targets = .ok value ∧ ConnectProxyPolicy.load (some value) = .ok p ∧
      ∀ x, x ∈ p.targets ↔ ∃ t ∈ targets, x = (t.hostname, t.port) := by
  obtain ⟨hne, hcanonical⟩ := compileProxyAllowlist_canonical henabled h
  generalize hunique : (targets.map fun t => (t.hostname, t.port)).dedup.mergeSort
    (fun a b => a.1 < b.1 || (a.1 = b.1 && a.2 ≤ b.2)) = unique
  have hmem : ∀ x, x ∈ unique ↔ ∃ t ∈ targets, x = (t.hostname, t.port) := fun x => by
    rw [← hunique, List.mem_mergeSort, List.mem_dedup, List.mem_map]
    exact ⟨fun ⟨t, ht, hx⟩ => ⟨t, ht, hx.symm⟩, fun ⟨t, ht, hx⟩ => ⟨t, ht, hx.symm⟩⟩
  have hne' : unique ≠ [] := by
    obtain ⟨t, ht⟩ := List.exists_mem_of_ne_nil targets hne
    exact List.ne_nil_of_mem ((hmem _).mpr ⟨t, ht, rfl⟩)
  obtain ⟨p, hp, htargets⟩ := load_rendered hne' fun x hx => by
    obtain ⟨t, ht, rfl⟩ := (hmem x).mp hx
    exact ⟨(hcanonical t ht).1.proxy, (hcanonical t ht).2⟩
  refine ⟨_, p, ?_, hp, fun x => ?_⟩
  · unfold renderPolicy
    rw [hunique]
    dsimp only
    rw [raiseIf_of_not (fun hnil => hne' hnil), ok_bind]
  · rw [htargets, List.mem_dedup]
    exact hmem x

/-- A stored name is canonical where its ASCII reading is neither an address nor prohibited; the lists that are compiled
    are loaded as they are. -/
theorem egress_hostnames_canonical (env : HostEnv) :
    (∀ (h purpose : Text) (port : Nat) (t : AllowedConnectTarget), allowedConnectTarget env h port purpose = .ok t →
      (Canonical env t.hostname ↔ isIpLiteral (env.asciiReading h) = false ∧ isProhibited (env.asciiReading h) = false)) ∧
    ∀ (policy : NetworkPolicy) (hosts : List Text) (targets : List AllowedConnectTarget), policy.enabled = true →
      compileProxyAllowlist env policy hosts = .ok targets → ∃ value p, renderPolicy targets = .ok value ∧
        ConnectProxyPolicy.load (some value) = .ok p ∧ ∀ x, x ∈ p.targets ↔ ∃ t ∈ targets, x = (t.hostname, t.port) :=
  ⟨fun _ _ _ _ ht => canonical_iff ht, fun _ _ _ henabled h => load_compiled henabled h⟩

def plainForm (c : Char) : Char :=
  if 0xFF01 ≤ c.toNat ∧ c.toNat ≤ 0xFF5E then (Char.ofNat (c.toNat - 0xFEE0)).toLower else c.toLower

def sampleEnv : HostEnv where
  nameprep t := some (t.map plainForm)
  extended _ := []
  keeps h hmark hc := by
    cases h
    refine List.mem_map.mpr ⟨_, hc, ?_⟩
    simp only [isMark, decide_eq_true_eq, List.mem_cons, List.not_mem_nil, or_false] at hmark
    rcases hmark with rfl | rfl | rfl | rfl | rfl | rfl | rfl <;> decide
  lower t := t.map Char.toLower
  isOther c := c.toNat < 32 || c.toNat = 127
  decimal c := if 0xFF10 ≤ c.toNat ∧ c.toNat ≤ 0xFF19 then some (c.toNat - 0xFF10) else none
  lower_ascii _ := rfl
  lower_scheme _ h := h
  isOther_ascii hmin hmax := by
    rw [Bool.or_eq_false_iff, decide_eq_false_iff_not, decide_eq_false_iff_not]
    exact ⟨Nat.not_lt.mpr hmin.le, hmax.ne⟩

/-- An address in fullwidth digits is stored as an address. -/
theorem fullwidth_address_stored : ¬∀ (h purpose : Text) (port : Nat) (t : AllowedConnectTarget),
    allowedConnectTarget sampleEnv h port purpose = .ok t → Canonical sampleEnv t.hostname := by
  intro hall
  have hstored : allowedConnectTarget sampleEnv "１２７.0.0.1".toList 443 "api".toList =
      .ok { hostname := "127.0.0.1".toList, port := 443, purpose := "api".toList } := by
    decide +kernel
  exact absurd (hall _ _ _ _ hstored).ip (by decide +kernel)

/-- A name in capitals is stored in its canonical form. -/
theorem egress_hostnames_canonical_example : Canonical sampleEnv "api.example.com".toList :=
  ((egress_hostnames_canonical sampleEnv).1 "API.Example.com".toList "api".toList 443
    { hostname := "api.example.com".toList, port := 443, purpose := "api".toList } (by decide +kernel)).mpr
    ⟨by decide +kernel, by decide +kernel⟩

end Vuzol.Egress
