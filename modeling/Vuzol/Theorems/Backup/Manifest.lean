import Mathlib
import Vuzol.Backup.Manifest
import Vuzol.Lib.Split

/-! A manifest that was accepted is accepted again, stored and loaded as it is, exactly where no relative path of an orphan
    is empty, no text looks like a secret and the file is no larger than the reader allows. -/

namespace Vuzol.Backup.Manifest

open Vuzol.Lib Lax

variable {Other : Type} {env : Environment Other}
variable {m : BackupManifest} {c : Char} {x : Components} {l : List (String × Json)}
    {payload : List (Value (Foreign Other) × Value (Foreign Other))} {most : Nat} {r : Option Text} {t u : Text}

/-! ### Characters -/

theorem isPathChar_range (h : isPathChar c = true) : c.toNat = 45 ∨ c.toNat = 46 ∨ c.toNat = 95 ∨
    (48 ≤ c.toNat ∧ c.toNat ≤ 57) ∨ (65 ≤ c.toNat ∧ c.toNat ≤ 90) ∨ (97 ≤ c.toNat ∧ c.toNat ≤ 122) := by
  simp only [isPathChar, Bool.or_eq_true, decide_eq_true_eq] at h
  rcases h with ((h | rfl) | rfl) | rfl
  · exact Or.inr (Or.inr (Or.inr (isAlphanum_range h)))
  · decide
  · decide
  · decide

theorem isPathChar_plain (h : isPathChar c = true) : c.toNat < 128 ∧ isSpace c = false ∧ c ≠ '/' ∧ c ≠ '\x5c' := by
  have hrange := isPathChar_range h
  refine ⟨by omega, ?_, ?_, ?_⟩
  · simp only [isSpace, Bool.or_eq_false_iff, Bool.and_eq_false_iff, decide_eq_false_iff_not]
    omega
  · rintro rfl; revert hrange; decide
  · rintro rfl; revert hrange; decide

theorem isPathChar_of_isLowerHex (h : isLowerHex c = true) : isPathChar c = true := by
  simp only [isLowerHex, Bool.or_eq_true, Bool.and_eq_true, decide_eq_true_eq] at h
  rcases h with h | ⟨hlow, hhigh⟩
  · simp [isPathChar, Char.isAlphanum, h]
  · have hlower : c.isLower = true := by
      have hle : c ≤ 'z' := Char.le_trans hhigh (by decide)
      simpa [Char.isLower, Char.le_def] using And.intro hlow hle
    simp [isPathChar, Char.isAlphanum, Char.isAlpha, hlower]

theorem toLower_of_isLowerHex (h : isLowerHex c = true) : c.toLower = c := by
  simp only [isLowerHex, Bool.or_eq_true, Bool.and_eq_true, decide_eq_true_eq] at h
  have hrange : 48 ≤ c.toNat ∧ c.toNat ≤ 57 ∨ 97 ≤ c.toNat := by
    rcases h with h | ⟨hlow, -⟩
    · have hdigit : '0' ≤ c ∧ c ≤ '9' := by simpa [Char.isDigit, Char.le_def] using h
      exact Or.inl ⟨hdigit.1, hdigit.2⟩
    · exact Or.inr hlow
  have hupper : ¬(c.val ≥ 'A'.val ∧ c.val ≤ 'Z'.val) := by
    rintro ⟨hlow, hhigh⟩
    have hlow' : 65 ≤ c.toNat := hlow
    have hhigh' : c.toNat ≤ 90 := hhigh
    omega
  unfold Char.toLower
  exact dif_neg hupper

theorem isSafeName_iff {most : Nat} {t : Text} : isSafeName most t = true ↔
    (∀ c ∈ t, isPathChar c = true) ∧ t.head?.any Char.isAlphanum = true ∧ t.length ≤ most + 1 := by
  cases t with
  | nil => simp [isSafeName]
  | cons c rest =>
    simp only [isSafeName, Bool.and_eq_true, List.all_eq_true, decide_eq_true_eq, List.forall_mem_cons, List.head?_cons,
      Option.any_some, List.length_cons, Nat.add_le_add_iff_right]
    constructor
    · rintro ⟨⟨hfirst, hrest⟩, hlength⟩
      exact ⟨⟨by simp [isPathChar, hfirst], hrest⟩, hfirst, hlength⟩
    · rintro ⟨⟨-, hrest⟩, hfirst, hlength⟩
      exact ⟨⟨hfirst, hrest⟩, hlength⟩

theorem length_of_isSafeName (h : isSafeName most t = true) : 1 ≤ t.length ∧ t.length ≤ most + 1 := by
  obtain ⟨-, hhead, hlength⟩ := isSafeName_iff.mp h
  refine ⟨?_, hlength⟩
  cases t with
  | nil => cases hhead
  | cons c t => simp

theorem strip_of_pathChars (h : ∀ c ∈ t, isPathChar c = true) : strip t = t :=
  strip_of_forall fun c hc => (isPathChar_plain (h c hc)).2.1

theorem pathChars_of_hex (h : t.all isLowerHex = true) : ∀ c ∈ t, isPathChar c = true := fun c hc =>
  isPathChar_of_isLowerHex (List.all_eq_true.mp h c hc)

theorem lower_of_pathChars (h : ∀ c ∈ t, isPathChar c = true) : env.lower t = t.map Char.toLower :=
  env.lower_ascii fun c hc => (isPathChar_plain (h c hc)).1

theorem lower_strip_hex (h : t.all isLowerHex = true) : env.lower (strip t) = t := by
  have hchars := pathChars_of_hex h
  rw [strip_of_pathChars hchars, lower_of_pathChars hchars]
  exact (List.map_congr_left fun c hc => toLower_of_isLowerHex (List.all_eq_true.mp h c hc)).trans (List.map_id t)

theorem length_lower_hex (h : (env.lower t).all isLowerHex = true) : (env.lower t).length = t.length := by
  rw [env.lower_ascii (env.lower_hex (List.all_eq_true.mp h)), List.length_map]

theorem strip_map {f : Char → Char} (hf : ∀ c, isSpace (f c) = isSpace c) (t : Text) : strip (t.map f) = (strip t).map f := by
  have hcomp : isSpace ∘ f = isSpace := funext hf
  simp only [strip, List.dropWhile_map, hcomp, ← List.map_reverse]

/-! ### What validators accept -/

theorem ensure_eq_ok {p : Prop} [Decidable p] {message : String} : ensure p message t = .ok u ↔ p ∧ t = u := by
  unfold ensure
  split <;> simp_all

theorem requireSha256_eq_ok (h : requireSha256 env t = .ok u) : isSha256 u = true := by
  obtain ⟨hsha, rfl⟩ := ensure_eq_ok.mp h
  exact hsha

theorem requireSha256_of_isSha256 (h : isSha256 t = true) : requireSha256 env t = .ok t := by
  have hhex : t.all isLowerHex = true := (Bool.and_eq_true_iff.mp h).2
  rw [requireSha256, lower_strip_hex hhex]
  exact ensure_eq_ok.mpr ⟨h, rfl⟩

theorem length_of_isSha256 (h : isSha256 t = true) : 64 ≤ t.length ∧ t.length ≤ 64 := by
  simp only [isSha256, Bool.and_eq_true, decide_eq_true_eq] at h
  omega

theorem requireOptionalSha256_eq_ok {t u : Option Text} (h : requireOptionalSha256 env t = .ok u) :
    ∀ x ∈ u, isSha256 x = true := by
  cases t with
  | none =>
    cases h
    simp
  | some t =>
    obtain ⟨v, hv, rfl⟩ := map_eq_ok.mp h
    rintro x ⟨⟩
    exact requireSha256_eq_ok hv

theorem requireOptionalSha256_of_forall {t : Option Text} (h : ∀ x ∈ t, isSha256 x = true) :
    requireOptionalSha256 env t = .ok t := by
  cases t with
  | none => rfl
  | some t => rw [requireOptionalSha256, requireSha256_of_isSha256 (h t rfl)]; rfl

theorem rejectSecretFieldName_eq_ok {name : Text} {u : Unit} (h : ∀ c ∈ name, isPathChar c = true) :
    rejectSecretFieldName env name = .ok u ↔ namesSecret none (nameSegments (name.map Char.toLower)) = false := by
  rw [rejectSecretFieldName, raiseIf_eq_ok, lower_of_pathChars h, Bool.not_eq_true]

theorem PlainName.chars (h : PlainName most t) : ∀ c ∈ t, isPathChar c = true :=
  (isSafeName_iff.mp h.1).1

theorem validateName_eq_ok (h : validateName env t = .ok u) : PlainName 127 u := by
  simp only [validateName, bind_eq_ok, raiseIf_eq_ok, exists_const] at h
  obtain ⟨-, hsafe, _, hname, h⟩ := h
  cases h
  rw [Bool.not_eq_false] at hsafe
  exact ⟨hsafe, (rejectSecretFieldName_eq_ok (isSafeName_iff.mp hsafe).1).mp hname⟩

theorem validateName_of_plain (h : PlainName 127 t) : validateName env t = .ok t := by
  have hchars := h.chars
  have hpath : ¬('/' ∈ t ∨ '\x5c' ∈ t ∨ t.head? = some '.') := by
    rintro (hmem | hmem | hdot)
    · exact (isPathChar_plain (hchars _ hmem)).2.2.1 rfl
    · exact (isPathChar_plain (hchars _ hmem)).2.2.2 rfl
    · have hhead := (isSafeName_iff.mp h.1).2.1
      rw [hdot] at hhead
      revert hhead
      decide
  simp only [validateName, bind_eq_ok, raiseIf_eq_ok, exists_const, strip_of_pathChars hchars]
  exact ⟨hpath, by simp [h.1], (), (rejectSecretFieldName_eq_ok hchars).mpr h.2, trivial⟩

theorem validateFilename_eq_ok (h : validateFilename t = .ok u) : isSafeName 127 u = true := by
  simp only [validateFilename, bind_eq_ok, raiseIf_eq_ok, exists_const] at h
  obtain ⟨-, hsafe, h⟩ := h
  cases h
  simpa using hsafe

theorem validateFilename_of_safe (h : isSafeName 127 t = true) : validateFilename t = .ok t := by
  have hchars := (isSafeName_iff.mp h).1
  have hpath : ¬('/' ∈ t ∨ '\x5c' ∈ t) := by
    rintro (hmem | hmem)
    · exact (isPathChar_plain (hchars _ hmem)).2.2.1 rfl
    · exact (isPathChar_plain (hchars _ hmem)).2.2.2 rfl
  simp only [validateFilename, bind_eq_ok, raiseIf_eq_ok, exists_const, strip_of_pathChars hchars]
  exact ⟨hpath, by simp [h], trivial⟩

theorem validateLabel_eq_ok (h : validateLabel env t = .ok u) : PlainName 99 u := by
  simp only [validateLabel, bind_eq_ok, raiseIf_eq_ok, exists_const] at h
  obtain ⟨hsafe, _, hname, h⟩ := h
  cases h
  rw [Bool.not_eq_false] at hsafe
  exact ⟨hsafe, (rejectSecretFieldName_eq_ok (isSafeName_iff.mp hsafe).1).mp hname⟩

theorem validateLabel_of_plain (h : PlainName 99 t) : validateLabel env t = .ok t := by
  simp only [validateLabel, bind_eq_ok, raiseIf_eq_ok, exists_const, strip_of_pathChars h.chars]
  exact ⟨by simp [h.1], (), (rejectSecretFieldName_eq_ok h.chars).mpr h.2, trivial⟩

theorem validateLabels_eq_ok {t u : Option Text} (h : validateLabels env t = .ok u) : ∀ x ∈ u, PlainName 99 x := by
  cases t with
  | none =>
    cases h
    simp
  | some t =>
    obtain ⟨v, hv, rfl⟩ := map_eq_ok.mp h
    rintro x ⟨⟩
    exact validateLabel_eq_ok hv

theorem validateLabels_of_forall {t : Option Text} (h : ∀ x ∈ t, PlainName 99 x) : validateLabels env t = .ok t := by
  cases t with
  | none => rfl
  | some t => rw [validateLabels, validateLabel_of_plain (h t rfl)]; rfl

theorem validateAlembicId_eq_ok (hlength : t.length ≤ 64) (h : validateAlembicId env t = .ok u) :
    Within 1 64 u ∧ u.all isLowerHex = true := by
  obtain ⟨⟨hhex, hne⟩, rfl⟩ := ensure_eq_ok.mp h
  refine ⟨⟨List.length_pos_iff.mpr hne, ?_⟩, hhex⟩
  rw [length_lower_hex hhex]
  exact (length_strip_le t).trans hlength

theorem validateState_of_mem (h : t ∈ storageStates) : validateState env t = .ok t := by
  have hfixed : (storageStates.all fun t => t.all isPathChar && decide (t.map Char.toLower = t)) = true := by decide
  simp only [List.all_eq_true, Bool.and_eq_true, decide_eq_true_eq] at hfixed
  obtain ⟨hchars, hlower⟩ := hfixed t h
  rw [validateState, strip_of_pathChars hchars, lower_of_pathChars hchars, hlower]
  exact ensure_eq_ok.mpr ⟨h, rfl⟩

/-! ### Secrets -/

variable (env) in
/-- `_reject_secret_string` lets the text pass. -/
def Clean (t : Text) : Prop := secretValue env t = false ∧ forbiddenPathMaterial t = false

theorem rejectSecretString_eq_ok {field : Text} {u : Unit} : rejectSecretString env t field = .ok u ↔ Clean env t := by
  simp only [rejectSecretString, bind_eq_ok, raiseIf_eq_ok, Bool.not_eq_true, exists_const, Clean]

theorem validateDeployPath_eq_ok (h : validateDeployPath env t = .ok u) : u = strip t ∧ u.head? = some '/' := by
  simp only [validateDeployPath, bind_eq_ok, raiseIf_eq_ok, exists_const, not_not] at h
  obtain ⟨hhead, _, -, h⟩ := h
  cases h
  exact ⟨rfl, hhead⟩

theorem validateDeployPath_of_clean (hstrip : strip t = t) (hhead : t.head? = some '/') (hclean : Clean env t) :
    validateDeployPath env t = .ok t := by
  simp only [validateDeployPath, bind_eq_ok, raiseIf_eq_ok, exists_const, not_not, hstrip]
  exact ⟨hhead, (), rejectSecretString_eq_ok.mpr hclean, trivial⟩

def slash (c : Char) : Char := if c = '\x5c' then '/' else c

theorem isSpace_slash (c : Char) : isSpace (slash c) = isSpace c := by
  unfold slash
  split
  · rename_i heq
    subst heq
    rfl
  · rfl

theorem validateRelpath_eq_ok (h : validateRelpath env t = .ok u) :
    u.length ≤ t.length ∧ strip u = u ∧ '\x5c' ∉ u ∧ u.head? ≠ some '/' ∧ ['.', '.'] ∉ u.splitOn '/' := by
  simp only [validateRelpath, bind_eq_ok, raiseIf_eq_ok, exists_const, not_or] at h
  obtain ⟨⟨hhead, hparts⟩, _, -, h⟩ := h
  cases h
  refine ⟨?_, ?_, ?_, hhead, hparts⟩
  · rw [List.length_map]
    exact length_strip_le t
  · show strip ((strip t).map slash) = (strip t).map slash
    rw [strip_map isSpace_slash, strip_strip]
  · rintro hmem
    obtain ⟨c, -, hc⟩ := List.mem_map.mp hmem
    split at hc
    · cases hc
    · contradiction

theorem validateRelpath_of_clean {x : OrphanFileRecord} (h : x.Valid) (hclean : Clean env x.relpath) :
    validateRelpath env x.relpath = .ok x.relpath := by
  obtain ⟨-, hstrip, hslash, hhead, hparts⟩ := h.relpath
  have hmap : (x.relpath.map fun c => if c = '\x5c' then '/' else c) = x.relpath := by
    refine (List.map_congr_left fun c hc => ?_).trans (List.map_id _)
    exact if_neg fun heq : c = '\x5c' => hslash (heq ▸ hc)
  simp only [validateRelpath, bind_eq_ok, raiseIf_eq_ok, exists_const, hstrip, hmap, not_or]
  exact ⟨⟨hhead, hparts⟩, (), rejectSecretString_eq_ok.mpr hclean, trivial⟩

/-! ### Texts that hold no secret -/

def isPlain (c : Char) : Bool := isLowerHex c || c ∈ ['-', ':', '.', 'T', 'Z']

theorem not_isPlain_of_letter : ∀ l ∈ ['s', 'p', 'k', 'r', 'y'], ∀ c, ignoringCase l c = true → ¬isPlain c = true := by
  intro l hl c hc
  simp only [ignoringCase, Bool.or_eq_true, Bool.and_eq_true, decide_eq_true_eq] at hc
  simp only [List.mem_cons, List.not_mem_nil, or_false] at hl
  rcases hl with rfl | rfl | rfl | rfl | rfl
  · rcases hc with (((rfl | ⟨-, rfl⟩) | ⟨h, -⟩) | ⟨-, rfl⟩) | ⟨h, -⟩
    all_goals first | decide | (exact absurd h (by decide))
  · rcases hc with (((rfl | ⟨-, rfl⟩) | ⟨h, -⟩) | ⟨h, -⟩) | ⟨h, -⟩
    all_goals first | decide | (exact absurd h (by decide))
  · rcases hc with (((rfl | ⟨-, rfl⟩) | ⟨h, -⟩) | ⟨h, -⟩) | ⟨-, rfl⟩
    all_goals first | decide | (exact absurd h (by decide))
  · rcases hc with (((rfl | ⟨-, rfl⟩) | ⟨h, -⟩) | ⟨h, -⟩) | ⟨h, -⟩
    all_goals first | decide | (exact absurd h (by decide))
  · rcases hc with (((rfl | ⟨-, rfl⟩) | ⟨h, -⟩) | ⟨h, -⟩) | ⟨h, -⟩
    all_goals first | decide | (exact absurd h (by decide))

variable {α : Type}

theorem needs_seqAll {p : α → Prop} {rs : List (Pattern α)} {r : Pattern α} (hr : r ∈ rs) (h : r.Needs p) :
    (Pattern.seqAll rs).Needs p := by
  induction rs with
  | nil => cases hr
  | cons first rs ih =>
    rcases List.mem_cons.mp hr with rfl | hr
    · exact Or.inl h
    · exact Or.inr (ih hr)

theorem needs_word {w : String} {l : Char} (hl : l ∈ ['s', 'p', 'k', 'r', 'y']) (hw : l ∈ w.toList) :
    (wordIgnoringCase w).Needs fun c => ¬isPlain c = true :=
  needs_seqAll (List.mem_map_of_mem hw) fun c hc => not_isPlain_of_letter l hl c hc

theorem needs_assignment : assignment.Needs fun c => ¬isPlain c = true := by
  refine needs_seqAll List.mem_cons_self ⟨?_, ?_, ?_, ?_⟩
  · exact needs_word (l := 'p') (by decide) (by decide)
  · exact needs_word (l := 's') (by decide) (by decide)
  · exact needs_seqAll List.mem_cons_self (needs_word (l := 'p') (by decide) (by decide))
  · exact needs_word (l := 'k') (by decide) (by decide)

theorem secretValue_of_plain (h : ∀ c ∈ t, isPlain c = true) : secretValue env t = false := by
  have hnot : ∀ c ∈ t, ¬¬isPlain c = true := fun c hc => not_not_intro (h c hc)
  have hfirst : (assignment.rests t).isEmpty = true := by
    by_contra hne
    rw [Bool.not_eq_true, List.isEmpty_eq_false_iff] at hne
    obtain ⟨post, hpost⟩ := List.exists_mem_of_ne_nil _ hne
    obtain ⟨w, rfl, hw⟩ := Pattern.mem_rests_iff.mp hpost
    obtain ⟨c, hc, hplain⟩ := needs_assignment.exists_mem hw
    exact hnot c (List.mem_append_left post hc) hplain
  have hbehind : (Pattern.seq (.one fun c => !isWord env c) assignment).Needs fun c => ¬isPlain c = true :=
    Or.inr needs_assignment
  have hkey : apiKey.Needs fun c => ¬isPlain c = true :=
    needs_seqAll List.mem_cons_self (needs_word (l := 's') (by decide) (by decide))
  have hurl : postgresUrl.Needs fun c => ¬isPlain c = true :=
    needs_seqAll List.mem_cons_self (needs_word (l := 'p') (by decide) (by decide))
  have hbearer : bearerToken.Needs fun c => ¬isPlain c = true :=
    needs_seqAll List.mem_cons_self (needs_word (l := 'r') (by decide) (by decide))
  have hjwt : compactJwt.Needs fun c => ¬isPlain c = true :=
    needs_seqAll List.mem_cons_self (needs_word (l := 'y') (by decide) (by decide))
  simp only [secretValue, hfirst, hbehind.search_eq_false hnot, hkey.search_eq_false hnot, hurl.search_eq_false hnot,
    hbearer.search_eq_false hnot, hjwt.search_eq_false hnot, Bool.not_true, Bool.or_self]

theorem standsIn_eq_false {root : Text} {t : Text} {previous : Option Char} (hroot : root.head? = some '/') (h : '/' ∉ t) :
    standsIn root previous t = false := by
  induction t generalizing previous with
  | nil => rfl
  | cons c t ih =>
    obtain ⟨rest, rfl⟩ : ∃ rest, root = '/' :: rest := by
      cases root with
      | nil => cases hroot
      | cons d root => exact ⟨root, by rw [Option.some.inj hroot]⟩
    have hne : ('/' == c) = false := beq_false_of_ne fun heq => h (heq ▸ List.mem_cons_self)
    rw [standsIn, ih fun hmem => h (List.mem_cons_of_mem c hmem)]
    simp [List.isPrefixOf, hne]

theorem forbiddenPathMaterial_eq_false (h : '/' ∉ t) : forbiddenPathMaterial t = false := by
  have hroots : ∀ root ∈ forbiddenPathPrefixes, root.head? = some '/' := by decide
  rw [forbiddenPathMaterial, List.any_eq_false]
  intro root hroot
  rw [standsIn_eq_false (hroots root hroot) h]
  decide

theorem clean_of_plain (h : ∀ c ∈ t, isPlain c = true) : Clean env t :=
  ⟨secretValue_of_plain h, forbiddenPathMaterial_eq_false fun hmem => absurd (h _ hmem) (by decide)⟩

theorem clean_of_hex (h : t.all isLowerHex = true) : Clean env t :=
  clean_of_plain fun c hc => by simp [isPlain, List.all_eq_true.mp h c hc]

theorem clean_of_isSha256 (h : isSha256 t = true) : Clean env t := clean_of_hex (Bool.and_eq_true_iff.mp h).2

theorem clean_isoformat (u : Instant) : Clean env (env.lax.isoformat u) := by
  refine clean_of_plain fun c hc => ?_
  rcases env.lax.isoformat_mem hc with h | h
  · simp [isPlain, isLowerHex, h]
  · simp [isPlain, h]

theorem clean_str (u : Uuid) : Clean env u.str := by
  refine clean_of_plain fun c hc => ?_
  have hdigits : ∀ d < 16, isPlain d.digitChar = true := by decide
  rcases Uuid.mem_str u hc with ⟨d, hd, rfl⟩ | rfl
  · exact hdigits d hd
  · decide

theorem clean_fixed : ∀ t ∈ schemaVersion :: storageStates ++ [QuiesceMode.fence.text, QuiesceMode.manual.text,
    QuiesceMode.none.text], Clean env t := by
  intro t ht
  simp only [storageStates, texts, List.map_cons, List.map_nil, List.cons_append, List.nil_append, List.mem_cons,
    List.not_mem_nil, or_false] at ht
  rcases ht with rfl | rfl | rfl | rfl | rfl | rfl | rfl | rfl | rfl <;> exact ⟨rfl, rfl⟩

/-! ### What a model is built of -/

section Fields
variable {items : List (Value (Foreign Other) × Value (Foreign Other))} {v : Value (Foreign Other)} {key : String}

theorem within_of_required {least : Nat} (h : required items key (env.lax.textOf (ε := Refusal) least most) = .ok t) :
    Within least most t := by
  obtain ⟨v, -, h⟩ := required_eq_ok h
  exact (textOf_eq_ok.mp h).2

theorem inRange_of_required {least most n : Int}
    (h : required items key (env.lax.intOf (ε := Refusal) least most) = .ok n) : InRange least most n := by
  obtain ⟨v, -, h⟩ := required_eq_ok h
  exact (intOf_eq_ok.mp h).2

theorem inRange_of_withDefault {least most n : Int} {r : Option Int}
    (h : withDefault items key none (nullable (env.lax.intOf (ε := Refusal) least most)) = .ok r) (hn : n ∈ r) :
    InRange least most n := by
  rcases withDefault_eq_ok h with rfl | ⟨v, h⟩
  · cases hn
  · exact (intOf_eq_ok.mp (nullable_eq_ok h n hn)).2

theorem isSha256_of_required (h : required items key (checked (env.lax.textOf 64 64) (requireSha256 env)) = .ok t) :
    isSha256 t = true := by
  obtain ⟨v, -, h⟩ := required_eq_ok h
  obtain ⟨u, -, h⟩ := checked_eq_ok.mp h
  exact requireSha256_eq_ok h

theorem isSha256_of_withDefault
    (h : withDefault items key none (checked (nullable (env.lax.textOf 64 64)) (requireOptionalSha256 env)) = .ok r) :
    ∀ t ∈ r, isSha256 t = true := by
  rcases withDefault_eq_ok h with rfl | ⟨v, h⟩
  · simp
  · obtain ⟨u, -, h⟩ := checked_eq_ok.mp h
    exact requireOptionalSha256_eq_ok h

theorem forall_of_withDefault {f : Value (Foreign Other) → Except (Invalid Refusal) α} {p : α → Prop} {l : List α}
    (hf : ∀ v a, f v = .ok a → p a) (h : withDefault items key [] (env.lax.tupleOf most f) = .ok l) :
    l.length ≤ most ∧ ∀ a ∈ l, p a := by
  rcases withDefault_eq_ok h with rfl | ⟨v, h⟩
  · exact ⟨Nat.zero_le _, by simp⟩
  · obtain ⟨hlength, hall⟩ := forall_of_tupleOf h
    refine ⟨hlength, fun a ha => ?_⟩
    obtain ⟨w, hw⟩ := hall a ha
    exact hf w a hw

theorem BackupAppIdentity.valid {x : BackupAppIdentity} (h : modelValidate env v = .ok x) : x.Valid := by
  unfold modelValidate at h
  split at h
  · cases h
    assumption
  · simp only [bind_eq_ok] at h
    obtain ⟨items, -, commit, hcommit, deploy, hdeploy, service, hservice, h⟩ := h
    cases h
    obtain ⟨_, -, hcommit⟩ := required_eq_ok hcommit
    obtain ⟨_, -, hcommit⟩ := checked_eq_ok.mp hcommit
    obtain ⟨⟨hhex, hleast, hmost⟩, rfl⟩ := ensure_eq_ok.mp hcommit
    obtain ⟨_, -, hdeploy⟩ := required_eq_ok hdeploy
    obtain ⟨raw, hraw, hdeploy⟩ := checked_eq_ok.mp hdeploy
    obtain ⟨rfl, hhead⟩ := validateDeployPath_eq_ok hdeploy
    exact ⟨⟨⟨hleast, hmost⟩, hhex⟩,
      ⟨⟨Nat.zero_le _, (length_strip_le raw).trans (textOf_eq_ok.mp hraw).2.2⟩, strip_strip raw, hhead⟩,
      within_of_required hservice⟩

theorem BackupSchemaIdentity.valid {x : BackupSchemaIdentity} (h : modelValidate env v = .ok x) : x.Valid := by
  unfold modelValidate at h
  split at h
  · cases h
    assumption
  · simp only [bind_eq_ok] at h
    obtain ⟨items, -, expected, hexpected, observed, hobserved, version, hversion, h⟩ := h
    cases h
    have hrevision : ∀ {key t}, required items key (checked (env.lax.textOf 1 64) (validateAlembicId env)) = .ok t →
        Within 1 64 t ∧ t.all isLowerHex = true := by
      intro key t h
      obtain ⟨_, -, h⟩ := required_eq_ok h
      obtain ⟨raw, hraw, h⟩ := checked_eq_ok.mp h
      exact validateAlembicId_eq_ok (textOf_eq_ok.mp hraw).2.2 h
    refine ⟨hrevision hexpected, hrevision hobserved, fun t ht => ?_⟩
    rcases withDefault_eq_ok hversion with rfl | ⟨v, hv⟩
    · cases ht
    · exact (textOf_eq_ok.mp (nullable_eq_ok hv t ht)).2

theorem ConfigFileHash.valid {x : ConfigFileHash} (h : modelValidate env v = .ok x) : x.Valid := by
  unfold modelValidate at h
  split at h
  · cases h
    assumption
  · simp only [bind_eq_ok] at h
    obtain ⟨items, -, name, hname, sha256, hsha256, size, hsize, h⟩ := h
    cases h
    obtain ⟨_, -, hname⟩ := required_eq_ok hname
    obtain ⟨_, -, hname⟩ := checked_eq_ok.mp hname
    exact ⟨validateName_eq_ok hname, isSha256_of_required hsha256, inRange_of_required hsize⟩

theorem BackupConfigSnapshot.valid {x : BackupConfigSnapshot} (h : modelValidate env v = .ok x) : x.Valid := by
  unfold modelValidate at h
  split at h
  · cases h
    assumption
  · simp only [bind_eq_ok] at h
    obtain ⟨items, -, revision, hrevision, files, hfiles, seccomp, hseccomp, h⟩ := h
    cases h
    refine ⟨isSha256_of_required hrevision, ?_, isSha256_of_withDefault hseccomp⟩
    exact forall_of_withDefault (fun _ _ => ConfigFileHash.valid) hfiles

theorem BackupComponent.valid {x : BackupComponent} (h : modelValidate env v = .ok x) : x.Valid := by
  unfold modelValidate at h
  split at h
  · cases h
    assumption
  · simp only [bind_eq_ok] at h
    obtain ⟨items, -, filename, hfilename, sha256, hsha256, size, hsize, cipher, hcipher, format, hformat, count, hcount,
      logical, hlogical, inventory, hinventory, h⟩ := h
    cases h
    obtain ⟨_, -, hfilename⟩ := required_eq_ok hfilename
    obtain ⟨_, -, hfilename⟩ := checked_eq_ok.mp hfilename
    refine ⟨validateFilename_eq_ok hfilename, isSha256_of_required hsha256, inRange_of_required hsize, ?_, ?_,
      fun n => inRange_of_withDefault hcount, fun n => inRange_of_withDefault hlogical, isSha256_of_withDefault hinventory⟩
    · rcases withDefault_eq_ok hcipher with rfl | ⟨v, hcipher⟩
      · exact ⟨rfl, rfl⟩
      · obtain ⟨_, -, hcipher⟩ := checked_eq_ok.mp hcipher
        exact validateLabel_eq_ok hcipher
    · rcases withDefault_eq_ok hformat with rfl | ⟨v, hformat⟩
      · simp
      · obtain ⟨_, -, hformat⟩ := checked_eq_ok.mp hformat
        exact validateLabels_eq_ok hformat

theorem MissingBlobRecord.valid {x : MissingBlobRecord} (h : modelValidate env v = .ok x) : x.Valid := by
  unfold modelValidate at h
  split at h
  · cases h
    assumption
  · simp only [bind_eq_ok] at h
    obtain ⟨items, -, hash, hhash, state, hstate, h⟩ := h
    cases h
    obtain ⟨_, -, hstate⟩ := required_eq_ok hstate
    obtain ⟨_, -, hstate⟩ := checked_eq_ok.mp hstate
    obtain ⟨hmem, rfl⟩ := ensure_eq_ok.mp hstate
    exact ⟨isSha256_of_required hhash, hmem⟩

theorem OrphanFileRecord.valid {x : OrphanFileRecord} (h : modelValidate env v = .ok x) : x.Valid := by
  unfold modelValidate at h
  split at h
  · cases h
    assumption
  · simp only [bind_eq_ok] at h
    obtain ⟨items, -, relpath, hrelpath, action, haction, h⟩ := h
    cases h
    obtain ⟨_, -, hrelpath⟩ := required_eq_ok hrelpath
    obtain ⟨raw, hraw, hrelpath⟩ := checked_eq_ok.mp hrelpath
    obtain ⟨hlength, hrest⟩ := validateRelpath_eq_ok hrelpath
    exact ⟨⟨⟨Nat.zero_le _, hlength.trans (textOf_eq_ok.mp hraw).2.2⟩, hrest⟩, within_of_required haction⟩

theorem ArtifactReconciliation.valid {x : ArtifactReconciliation} (h : modelValidate env v = .ok x) : x.Valid := by
  unfold modelValidate at h
  split at h
  · cases h
    assumption
  · simp only [bind_eq_ok] at h
    obtain ⟨items, -, rows, hrows, objects, hobjects, missing, hmissing, orphans, horphans, links, hlinks, h⟩ := h
    cases h
    refine ⟨inRange_of_required hrows, inRange_of_required hobjects,
      forall_of_withDefault (fun _ _ => MissingBlobRecord.valid) hmissing,
      forall_of_withDefault (fun _ _ => OrphanFileRecord.valid) horphans, ?_⟩
    rcases withDefault_eq_ok hlinks with rfl | ⟨v, hlinks⟩
    · show InRange 0 10000000 0
      exact ⟨by decide, by decide⟩
    · exact (intOf_eq_ok.mp hlinks).2

theorem BackupRetentionMeta.valid {x : BackupRetentionMeta} (h : modelValidate env v = .ok x) : x.Valid := by
  unfold modelValidate at h
  split at h
  · cases h
    assumption
  · simp only [bind_eq_ok] at h
    obtain ⟨items, -, runs, hruns, days, hdays, h⟩ := h
    cases h
    exact ⟨inRange_of_required hruns, inRange_of_required hdays⟩

theorem BackupQuiesceInfo.valid {x : BackupQuiesceInfo} (h : modelValidate env v = .ok x) : x.Valid := by
  unfold modelValidate at h
  split at h
  · cases h
    assumption
  · simp only [bind_eq_ok] at h
    obtain ⟨items, -, mode, -, seconds, hseconds, h⟩ := h
    cases h
    refine ⟨?_⟩
    rcases withDefault_eq_ok hseconds with rfl | ⟨v, hseconds⟩
    · show InRange 0 3600 0
      exact ⟨by decide, by decide⟩
    · exact (intOf_eq_ok.mp hseconds).2

theorem BackupRpoRto.valid {x : BackupRpoRto} (h : modelValidate env v = .ok x) : x.Valid := by
  unfold modelValidate at h
  split at h
  · cases h
    assumption
  · simp only [bind_eq_ok] at h
    obtain ⟨items, -, proposed, -, rpo, hrpo, rto, hrto, rpoMeasured, hrpoMeasured, rtoMeasured, hrtoMeasured, h⟩ := h
    cases h
    exact ⟨inRange_of_required hrpo, inRange_of_required hrto, fun n => inRange_of_withDefault hrpoMeasured,
      fun n => inRange_of_withDefault hrtoMeasured⟩

end Fields

/-! ### What was written is read back -/

section Read
variable {v : Value (Foreign Other)}

variable (env) in
theorem fields_reads (h : v.Reads (.obj l)) (hl : (l.map Prod.fst).Nodup) :
    ∃ items, v = .dict items ∧ (env.lax.itemsOf (l.map Prod.fst) v : Except (Invalid Refusal) _) = .ok items ∧
      l.Forall fun f => ∃ x, Value.item? items f.1.toList = some x ∧ x.Reads f.2 := by
  obtain ⟨items, hv, hitems, hfields⟩ := itemsOf_reads h hl
  exact ⟨items, hv, hitems, List.forall_iff_forall_mem.mpr hfields⟩

theorem textOf_reads {least : Nat} (ht : Within least most t) (h : v.Reads (.str t)) :
    env.lax.textOf (ε := Refusal) least most v = .ok t := h.str ▸ textOf_str ht

theorem checked_reads {least : Nat} {validate : Text → Except Refusal Text} (ht : Within least most t)
    (hu : validate t = .ok u) (h : v.Reads (.str t)) : checked (env.lax.textOf least most) validate v = .ok u :=
  checked_eq_ok.mpr ⟨t, textOf_reads ht h, hu⟩

theorem intOf_reads {least most n : Int} (hn : InRange least most n) (h : v.Reads (.num n)) :
    env.lax.intOf (ε := Refusal) least most v = .ok n := h.int ▸ intOf_int hn

theorem nullableInt_reads {least most : Int} {r : Option Int} (hr : ∀ n ∈ r, InRange least most n)
    (h : v.Reads (intOrNull r)) : nullable (env.lax.intOf (ε := Refusal) least most) v = .ok r := by
  cases r with
  | none => rw [h.none]; rfl
  | some n =>
    obtain rfl := Value.Reads.int h
    show (env.lax.intOf (ε := Refusal) least most (.int n)).map some = _
    rw [intOf_int (hr n rfl)]
    rfl

theorem nullableText_reads {least most : Nat} {r : Option Text} (hr : ∀ t ∈ r, Within least most t)
    (h : v.Reads (textOrNull r)) : nullable (env.lax.textOf (ε := Refusal) least most) v = .ok r := by
  cases r with
  | none => rw [h.none]; rfl
  | some t =>
    obtain rfl := Value.Reads.str h
    show (env.lax.textOf (ε := Refusal) least most (.str t)).map some = _
    rw [textOf_str (hr t rfl)]
    rfl

theorem checkedNullable_reads {least : Nat} {u : Option Text} {validate : Option Text → Except Refusal (Option Text)}
    (hr : ∀ t ∈ r, Within least most t) (hu : validate r = .ok u) (h : v.Reads (textOrNull r)) :
    checked (nullable (env.lax.textOf least most)) validate v = .ok u :=
  checked_eq_ok.mpr ⟨r, nullableText_reads hr h, hu⟩

theorem bool_reads {b : Bool} (h : v.Reads (.bool b)) : (read (env.lax.bool v) : Except (Invalid Refusal) Bool) = .ok b :=
  read_eq_ok.mpr (h.bool ▸ env.lax.bool_bool b)

theorem tuple_reads {f : Value (Foreign Other) → Except (Invalid Refusal) α} {dump : α → Json} {most : Nat}
    {l : List α} (hlength : l.length ≤ most) (hf : ∀ a ∈ l, ∀ w : Value (Foreign Other), w.Reads (dump a) → f w = .ok a)
    (h : v.Reads (.arr (l.map dump))) : env.lax.tupleOf most f v = .ok l := by
  obtain ⟨vs, rfl, hall⟩ := h.list
  have hlen : vs.length ≤ most := by
    rw [hall.length_eq, List.length_map]
    exact hlength
  refine tupleOf_list hlen ?_
  rw [List.forall₂_map_right_iff] at hall
  clear hlength hlen h
  induction hall with
  | nil => exact .nil
  | cons hw _ ih => exact .cons (hf _ List.mem_cons_self _ hw) (ih fun a ha => hf a (List.mem_cons_of_mem _ ha))

theorem BackupAppIdentity.modelValidate_reads {x : BackupAppIdentity} (hx : x.Valid) (hpath : Clean env x.deployPath)
    (h : v.Reads x.modelDump) : modelValidate env v = .ok x := by
  obtain ⟨items, rfl, hitems, hcommit, hdeploy, hservice⟩ := fields_reads env h (by simp)
  simp only [List.map_cons, List.map_nil] at hitems
  obtain ⟨⟨hwithin, hhex⟩, ⟨⟨-, hmost⟩, hstrip, hhead⟩, hname⟩ := hx
  have hcommitOk : validateCommit env x.gitCommit = .ok x.gitCommit := by
    rw [validateCommit, lower_strip_hex hhex]
    exact ensure_eq_ok.mpr ⟨⟨hhex, hwithin⟩, rfl⟩
  have hpos : 1 ≤ x.deployPath.length := by
    cases hpathEq : x.deployPath with
    | nil => rw [hpathEq] at hhead; cases hhead
    | cons c t => simp
  unfold modelValidate
  dsimp only
  rw [hitems, ok_bind, required_reads hcommit fun _ => checked_reads hwithin hcommitOk, ok_bind,
    required_reads hdeploy fun _ => checked_reads ⟨hpos, hmost⟩ (validateDeployPath_of_clean hstrip hhead hpath), ok_bind,
    required_reads hservice fun _ => textOf_reads hname]
  rfl

theorem hash_reads (ht : isSha256 t = true) (h : v.Reads (.str t)) :
    checked (env.lax.textOf 64 64) (requireSha256 env) v = .ok t :=
  checked_reads (length_of_isSha256 ht) (requireSha256_of_isSha256 ht) h

theorem optionalHash_reads (hr : ∀ t ∈ r, isSha256 t = true) (h : v.Reads (textOrNull r)) :
    checked (nullable (env.lax.textOf 64 64)) (requireOptionalSha256 env) v = .ok r :=
  checkedNullable_reads (fun t ht => length_of_isSha256 (hr t ht)) (requireOptionalSha256_of_forall hr) h

theorem BackupSchemaIdentity.modelValidate_reads {x : BackupSchemaIdentity} (hx : x.Valid) (h : v.Reads x.modelDump) :
    modelValidate env v = .ok x := by
  obtain ⟨items, rfl, hitems, hexpected, hobserved, hversion⟩ := fields_reads env h (by simp)
  simp only [List.map_cons, List.map_nil] at hitems
  have hrevision : ∀ {t : Text}, Within 1 64 t ∧ t.all isLowerHex = true → validateAlembicId env t = .ok t := by
    rintro t ⟨hwithin, hhex⟩
    rw [validateAlembicId, lower_strip_hex hhex]
    exact ensure_eq_ok.mpr ⟨⟨hhex, List.length_pos_iff.mp hwithin.1⟩, rfl⟩
  unfold modelValidate
  dsimp only
  rw [hitems, ok_bind,
    required_reads hexpected fun _ => checked_reads hx.alembicHeadExpected.1 (hrevision hx.alembicHeadExpected), ok_bind,
    required_reads hobserved fun _ => checked_reads hx.alembicHeadObserved.1 (hrevision hx.alembicHeadObserved), ok_bind,
    withDefault_reads hversion fun _ => nullableText_reads hx.postgresVersion]
  rfl

theorem ConfigFileHash.modelValidate_reads {x : ConfigFileHash} (hx : x.Valid) (h : v.Reads x.modelDump) :
    modelValidate env v = .ok x := by
  obtain ⟨items, rfl, hitems, hname, hsha256, hsize⟩ := fields_reads env h (by simp)
  simp only [List.map_cons, List.map_nil] at hitems
  have hlength := length_of_isSafeName hx.name.1
  have hwithin : Within 1 200 x.name := ⟨hlength.1, hlength.2.trans (by decide)⟩
  unfold modelValidate
  dsimp only
  rw [hitems, ok_bind, required_reads hname fun _ => checked_reads hwithin (validateName_of_plain hx.name), ok_bind,
    required_reads hsha256 fun _ => hash_reads hx.sha256, ok_bind, required_reads hsize fun _ => intOf_reads hx.size]
  rfl

theorem BackupConfigSnapshot.modelValidate_reads {x : BackupConfigSnapshot} (hx : x.Valid) (h : v.Reads x.modelDump) :
    modelValidate env v = .ok x := by
  obtain ⟨items, rfl, hitems, hrevision, hfiles, hseccomp⟩ := fields_reads env h (by simp)
  simp only [List.map_cons, List.map_nil] at hitems
  unfold modelValidate
  dsimp only
  rw [hitems, ok_bind, required_reads hrevision fun _ => hash_reads hx.registryRevision, ok_bind,
    withDefault_reads hfiles fun _ => tuple_reads hx.files.1 fun f hf _ => ConfigFileHash.modelValidate_reads (hx.files.2 f hf),
    ok_bind, withDefault_reads hseccomp fun _ => optionalHash_reads hx.seccompSha256]
  rfl

theorem BackupComponent.modelValidate_reads {x : BackupComponent} (hx : x.Valid) (h : v.Reads x.modelDump) :
    modelValidate env v = .ok x := by
  obtain ⟨items, rfl, hitems, hfilename, hsha256, hsize, hcipher, hformat, hcount, hlogical, hinventory⟩ := fields_reads env h (by simp)
  simp only [List.map_cons, List.map_nil] at hitems
  have hlength := length_of_isSafeName hx.filename
  have hfile : Within 1 200 x.filename := ⟨hlength.1, hlength.2.trans (by decide)⟩
  have hlabels : ∀ t ∈ x.format, Within 0 100 t := fun t ht => ⟨Nat.zero_le _, (length_of_isSafeName (hx.format t ht).1).2⟩
  unfold modelValidate
  dsimp only
  rw [hitems, ok_bind, required_reads hfilename fun _ => checked_reads hfile (validateFilename_of_safe hx.filename), ok_bind,
    required_reads hsha256 fun _ => hash_reads hx.sha256Ciphertext, ok_bind,
    required_reads hsize fun _ => intOf_reads hx.sizeCiphertext, ok_bind,
    withDefault_reads hcipher fun _ => checked_reads (length_of_isSafeName hx.cipher.1) (validateLabel_of_plain hx.cipher), ok_bind,
    withDefault_reads hformat fun _ => checkedNullable_reads hlabels (validateLabels_of_forall hx.format), ok_bind,
    withDefault_reads hcount fun _ => nullableInt_reads hx.objectCount, ok_bind,
    withDefault_reads hlogical fun _ => nullableInt_reads hx.bytesLogical, ok_bind,
    withDefault_reads hinventory fun _ => optionalHash_reads hx.inventorySha256]
  rfl

theorem MissingBlobRecord.modelValidate_reads {x : MissingBlobRecord} (hx : x.Valid) (h : v.Reads x.modelDump) :
    modelValidate env v = .ok x := by
  obtain ⟨items, rfl, hitems, hhash, hstate⟩ := fields_reads env h (by simp)
  simp only [List.map_cons, List.map_nil] at hitems
  have hwithin : Within 1 40 x.storageState := by
    have hlengths : ∀ t ∈ storageStates, 1 ≤ t.length ∧ t.length ≤ 40 := by decide
    exact hlengths _ hx.storageState
  unfold modelValidate
  dsimp only
  rw [hitems, ok_bind, required_reads hhash fun _ => hash_reads hx.contentHash, ok_bind,
    required_reads hstate fun _ => checked_reads hwithin (validateState_of_mem hx.storageState)]
  rfl

theorem OrphanFileRecord.modelValidate_reads {x : OrphanFileRecord} (hx : x.Valid) (hne : x.relpath ≠ [])
    (hclean : Clean env x.relpath) (h : v.Reads x.modelDump) : modelValidate env v = .ok x := by
  obtain ⟨items, rfl, hitems, hrelpath, haction⟩ := fields_reads env h (by simp)
  simp only [List.map_cons, List.map_nil] at hitems
  have hwithin : Within 1 500 x.relpath := ⟨List.length_pos_iff.mpr hne, hx.relpath.1.2⟩
  unfold modelValidate
  dsimp only
  rw [hitems, ok_bind, required_reads hrelpath fun _ => checked_reads hwithin (validateRelpath_of_clean hx hclean), ok_bind,
    required_reads haction fun _ => textOf_reads hx.action]
  rfl

theorem itemsOf_dict {names : List String} {items items' : List (Value (Foreign Other) × Value (Foreign Other))}
    (h : (env.lax.itemsOf names (.dict items) : Except (Invalid Refusal) _) = .ok items') : items' = items := by
  simp only [itemsOf, env.lax.mapping_dict, bind_eq_ok, read_eq_ok, Option.some.injEq] at h
  obtain ⟨_, rfl, _, -, h⟩ := h
  cases h
  rfl

theorem OrphanFileRecord.relpath_ne_nil {x y : OrphanFileRecord} (h : v.Reads x.modelDump)
    (hread : modelValidate env v = .ok y) : x.relpath ≠ [] := by
  obtain ⟨items, rfl, -, ⟨w, hw, hwreads⟩, -⟩ := fields_reads env h (by simp)
  unfold modelValidate at hread
  simp only [bind_eq_ok] at hread
  obtain ⟨items', hitems, relpath, hrelpath, -⟩ := hread
  obtain rfl := itemsOf_dict hitems
  obtain ⟨w', hw', hrelpath⟩ := required_eq_ok hrelpath
  obtain rfl := Option.some.inj (hw.symm.trans hw')
  obtain rfl := Value.Reads.str hwreads
  obtain ⟨raw, hraw, -⟩ := checked_eq_ok.mp hrelpath
  obtain ⟨htext, hleast, -⟩ := textOf_eq_ok.mp hraw
  rw [env.lax.text_str] at htext
  obtain rfl := Option.some.inj htext
  exact List.length_pos_iff.mp hleast

theorem ArtifactReconciliation.modelValidate_reads {x : ArtifactReconciliation} (hx : x.Valid)
    (horphans : ∀ o ∈ x.orphanFiles, o.relpath ≠ [] ∧ Clean env o.relpath) (h : v.Reads x.modelDump) :
    modelValidate env v = .ok x := by
  obtain ⟨items, rfl, hitems, hrows, hobjects, hmissing, hfiles, hlinks⟩ := fields_reads env h (by simp)
  simp only [List.map_cons, List.map_nil] at hitems
  unfold modelValidate
  dsimp only
  rw [hitems, ok_bind, required_reads hrows fun _ => intOf_reads hx.dbRows, ok_bind,
    required_reads hobjects fun _ => intOf_reads hx.fsObjects, ok_bind,
    withDefault_reads hmissing fun _ => tuple_reads hx.missingBlobs.1 fun r hr _ =>
      MissingBlobRecord.modelValidate_reads (hx.missingBlobs.2 r hr), ok_bind,
    withDefault_reads hfiles fun _ => tuple_reads hx.orphanFiles.1 fun o ho _ =>
      OrphanFileRecord.modelValidate_reads (hx.orphanFiles.2 o ho) (horphans o ho).1 (horphans o ho).2, ok_bind,
    withDefault_reads hlinks fun _ => intOf_reads hx.skippedSymlinks]
  rfl

theorem ArtifactReconciliation.relpath_ne_nil {x y : ArtifactReconciliation} (h : v.Reads x.modelDump)
    (hread : modelValidate env v = .ok y) : ∀ o ∈ x.orphanFiles, o.relpath ≠ [] := by
  obtain ⟨items, rfl, -, -, -, -, ⟨w, hw, hwreads⟩, -⟩ := fields_reads env h (by simp)
  unfold modelValidate at hread
  simp only [bind_eq_ok] at hread
  obtain ⟨items', hitems, _, -, _, -, _, -, orphans, horphans, -⟩ := hread
  obtain rfl := itemsOf_dict hitems
  unfold withDefault at horphans
  rw [hw] at horphans
  obtain ⟨vs, hvs, -, hall⟩ := tupleOf_eq_ok horphans
  obtain ⟨ws, rfl, hws⟩ := hwreads.list
  rw [env.lax.sequence_list] at hvs
  obtain rfl := Option.some.inj hvs
  rw [List.forall₂_map_right_iff] at hws
  have hread := forall₂_of_mapM hall
  clear hall horphans hw hvs hwreads
  generalize x.orphanFiles = files at hws
  intro o ho
  induction hws generalizing orphans with
  | nil => cases ho
  | cons hreads _ ih =>
    obtain ⟨z, zs, hz, hzs, rfl⟩ := List.forall₂_cons_left_iff.mp hread
    rcases List.mem_cons.mp ho with rfl | ho
    · exact OrphanFileRecord.relpath_ne_nil hreads hz
    · exact ih _ hzs ho

theorem BackupRetentionMeta.modelValidate_reads {x : BackupRetentionMeta} (hx : x.Valid) (h : v.Reads x.modelDump) :
    modelValidate env v = .ok x := by
  obtain ⟨items, rfl, hitems, hfields⟩ := fields_reads env h (by simp)
  simp only [List.map_cons, List.map_nil] at hitems
  unfold modelValidate
  dsimp only
  rw [hitems, ok_bind, required_reads hfields.1 fun _ => intOf_reads hx.keepLocalRuns, ok_bind,
    required_reads hfields.2 fun _ => intOf_reads hx.keepOffhostDays]
  rfl

theorem BackupQuiesceInfo.modelValidate_reads {x : BackupQuiesceInfo} (hx : x.Valid) (h : v.Reads x.modelDump) :
    modelValidate env v = .ok x := by
  obtain ⟨items, rfl, hitems, hfields⟩ := fields_reads env h (by simp)
  simp only [List.map_cons, List.map_nil] at hitems
  have hmode : ∀ w : Value (Foreign Other), w.Reads (.str x.mode.text) →
      (literalOf quiesceModes w : Except (Invalid Refusal) _) = .ok x.mode := by
    intro w hw
    rw [hw.str]
    cases x.mode <;> rfl
  unfold modelValidate
  dsimp only
  rw [hitems, ok_bind, withDefault_reads hfields.1 hmode, ok_bind,
    withDefault_reads hfields.2 fun _ => intOf_reads hx.durationSeconds]
  rfl

theorem BackupRpoRto.modelValidate_reads {x : BackupRpoRto} (hx : x.Valid) (h : v.Reads x.modelDump) :
    modelValidate env v = .ok x := by
  obtain ⟨items, rfl, hitems, hproposed, hrpo, hrto, hrpoMeasured, hrtoMeasured⟩ := fields_reads env h (by simp)
  simp only [List.map_cons, List.map_nil] at hitems
  unfold modelValidate
  dsimp only
  rw [hitems, ok_bind, withDefault_reads hproposed fun _ => bool_reads, ok_bind,
    required_reads hrpo fun _ => intOf_reads hx.rpoSecondsTarget, ok_bind,
    required_reads hrto fun _ => intOf_reads hx.rtoSecondsTarget, ok_bind,
    withDefault_reads hrpoMeasured fun _ => nullableInt_reads hx.rpoSecondsMeasured, ok_bind,
    withDefault_reads hrtoMeasured fun _ => nullableInt_reads hx.rtoSecondsMeasured]
  rfl

end Read

/-! ### Components -/

structure Components.Valid (x : Components) : Prop where
  ne_nil : x.items ≠ []
  components : ∀ p ∈ x.items, p.2.Valid

theorem Components.items_lookup (x : Components) : x.items.lookup "postgres" = x.postgres ∧
    x.items.lookup "artifacts" = x.artifacts ∧ x.items.lookup "config" = x.config := by
  obtain ⟨postgres, artifacts, config⟩ := x
  cases postgres <;> cases artifacts <;> cases config <;> exact ⟨rfl, rfl, rfl⟩

theorem Components.items_keys (x : Components) : (x.items.map Prod.fst).Nodup ∧
    (∀ k ∈ x.items.map Prod.fst, k ∈ ["postgres", "artifacts", "config"]) ∧ x.items.length ≤ 3 := by
  obtain ⟨postgres, artifacts, config⟩ := x
  cases postgres <;> cases artifacts <;> cases config <;> simp [items]

theorem Components.mem_items {p : String × BackupComponent} (h : p ∈ x.items) :
    p.2 ∈ x.postgres ∨ p.2 ∈ x.artifacts ∨ p.2 ∈ x.config := by
  obtain ⟨postgres, artifacts, config⟩ := x
  simp only [items, List.mem_append, List.mem_map, Option.mem_toList] at h
  rcases h with (⟨c, hc, rfl⟩ | ⟨c, hc, rfl⟩) | ⟨c, hc, rfl⟩
  · exact Or.inl hc
  · exact Or.inr (Or.inl hc)
  · exact Or.inr (Or.inr hc)

theorem Components.valid {v : Value (Foreign Other)} (h : modelValidate env v = .ok x) : x.Valid := by
  simp only [modelValidate, bind_eq_ok, raiseIf_eq_ok, exists_const, mapError_eq_ok, read_eq_ok] at h
  obtain ⟨items, -, value, hvalue, hne, -, h⟩ := h
  simp only [validateComponentKeys, bind_eq_ok, raiseIf_eq_ok, exists_const, not_not, List.filter_eq_nil_iff,
    decide_eq_true_eq] at h
  obtain ⟨hknown, _, -, h⟩ := h
  cases h
  have hvalid : ∀ p ∈ value, p.2.Valid := by
    refine forall_of_mapM (fun p q hq => ?_) hvalue
    obtain ⟨key, -, hq⟩ := bind_eq_ok.mp hq
    obtain ⟨component, hcomponent, hq⟩ := bind_eq_ok.mp hq
    cases hq
    exact BackupComponent.valid hcomponent
  have hlookup : ∀ {key : Text} {c : BackupComponent}, value.reverse.lookup key = some c → c.Valid := fun hc =>
    hvalid _ (List.mem_reverse.mp (Json.mem_of_lookup hc))
  refine ⟨fun hnil => ?_, fun p hp => ?_⟩
  · obtain ⟨p, rest, rfl⟩ := List.exists_cons_of_ne_nil hne
    have hkey : p.1 ∈ texts ["postgres", "artifacts", "config"] :=
      hknown p.1 (List.mem_map_of_mem List.mem_cons_self)
    have hsome : ((p :: rest).reverse.lookup p.1).isSome = true := by
      rw [List.lookup_isSome_iff]
      exact ⟨p, List.mem_reverse.mpr List.mem_cons_self, beq_self_eq_true p.1⟩
    simp only [Components.items, List.append_eq_nil_iff, List.map_eq_nil_iff, Option.toList_eq_nil_iff] at hnil
    simp only [texts, List.map_cons, List.map_nil, List.mem_cons, List.not_mem_nil, or_false] at hkey
    rcases hkey with hkey | hkey | hkey
    · rw [hkey, hnil.1.1] at hsome
      cases hsome
    · rw [hkey, hnil.1.2] at hsome
      cases hsome
    · rw [hkey, hnil.2] at hsome
      cases hsome
  · rcases Components.mem_items hp with hc | hc | hc <;> exact hlookup hc

/-- A list of pairs whose keys are those of another, and whose pairs are all there, is looked up like it. -/
theorem lookup_eq_of_pairs {value : List (Text × BackupComponent)} {items : List (String × BackupComponent)}
    (hkeys : (value.map Prod.fst).Perm (items.map fun p => p.1.toList)) (hitems : (items.map Prod.fst).Nodup)
    (hvalue : ∀ p ∈ value, ∃ k, (k, p.2) ∈ items ∧ p.1 = k.toList) (key : String) :
    value.reverse.lookup key.toList = items.lookup key := by
  have hnodup : ((items.map fun p => p.1.toList)).Nodup := by
    have hmap : (items.map fun p => p.1.toList) = (items.map Prod.fst).map String.toList := by simp
    rw [hmap]
    exact hitems.map fun _ _ heq => String.toList_inj.mp heq
  have hreverse : (value.reverse.map Prod.fst).Nodup := by
    rw [List.map_reverse, List.nodup_reverse]
    exact hkeys.nodup_iff.mpr hnodup
  cases hlookup : items.lookup key with
  | none =>
    rw [List.lookup_eq_none_iff] at hlookup ⊢
    intro p hp
    obtain ⟨k, hk, hkey⟩ := hvalue p (List.mem_reverse.mp hp)
    have hne := hlookup _ hk
    simp only [bne_iff_ne, ne_eq] at hne ⊢
    rw [hkey]
    simpa [String.toList_inj] using hne
  | some c =>
    have hmem : key.toList ∈ value.map Prod.fst :=
      hkeys.mem_iff.mpr (List.mem_map_of_mem (f := fun p : String × BackupComponent => p.1.toList) (Json.mem_of_lookup hlookup))
    obtain ⟨p, hp, hkey⟩ := List.mem_map.mp hmem
    obtain ⟨k, hk, hpk⟩ := hvalue p hp
    obtain rfl : k = key := String.toList_inj.mp (hpk.symm.trans hkey)
    have hfound := Json.lookup_of_mem hitems hk
    rw [hlookup] at hfound
    rw [← hkey, Json.lookup_of_mem hreverse (List.mem_reverse.mpr hp), Option.some.inj hfound]

theorem Components.modelValidate_reads {v : Value (Foreign Other)} (hx : x.Valid) (h : v.Reads x.modelDump) :
    modelValidate env v = .ok x := by
  obtain ⟨hnodup, hknown, hlength⟩ := x.items_keys
  have hdump : (x.items.map fun p => (p.1, p.2.modelDump)).map Prod.fst = x.items.map Prod.fst := by simp
  obtain ⟨m, rfl, hkeys, hfields⟩ := h.fields (by rw [hdump]; exact hnodup)
  rw [hdump] at hkeys
  -- Each field of the object is read as the component of its name.
  have hread : ∃ value, (Value.ofJsonFields m).mapM (fun p => do
        let key ← (read (env.lax.text p.1) : Except (Invalid Refusal) Text)
        let component ← BackupComponent.modelValidate env p.2
        .ok (key, component)) = .ok value ∧
      value.map Prod.fst = m.map (fun f => f.1.toList) ∧ ∀ p ∈ value, ∃ k, (k, p.2) ∈ x.items ∧ p.1 = k.toList := by
    clear hkeys h
    induction m with
    | nil => exact ⟨[], rfl, rfl, by simp⟩
    | cons f m ih =>
      obtain ⟨value, hvalue, hfst, hmem⟩ := ih fun g hg => hfields g (List.mem_cons_of_mem f hg)
      obtain ⟨j, hj, hreads⟩ := hfields f List.mem_cons_self
      obtain ⟨p, hp, hpj⟩ := List.mem_map.mp hj
      obtain ⟨hpf, rfl⟩ := Prod.mk.inj hpj
      have hcomponent : BackupComponent.modelValidate env (Value.ofJson f.2) = .ok p.2 :=
        BackupComponent.modelValidate_reads (hx.components p hp) hreads
      refine ⟨(f.1.toList, p.2) :: value, ?_, by rw [List.map_cons, hfst, List.map_cons], ?_⟩
      · obtain ⟨k, y⟩ := f
        rw [Value.ofJsonFields, List.mapM_cons, hvalue]
        simp only [env.lax.text_str, read_some, ok_bind]
        rw [show BackupComponent.modelValidate env (Value.ofJson y) = .ok p.2 from hcomponent]
        rfl
      · exact List.forall_mem_cons.mpr ⟨⟨p.1, hp, by rw [hpf]⟩, hmem⟩
  obtain ⟨value, hvalue, hfst, hmem⟩ := hread
  have hperm : (value.map Prod.fst).Perm (x.items.map fun p => p.1.toList) := by
    rw [hfst]
    have hmap := hkeys.map String.toList
    rwa [List.map_map, List.map_map] at hmap
  have hlen : value.length = x.items.length := by simpa using hperm.length_eq
  have hne : value ≠ [] := fun hnil => hx.ne_nil (List.length_eq_zero_iff.mp (by rw [← hlen, hnil]; rfl))
  have hfew : ¬20 < (value.map Prod.fst).dedup.length := by
    have hle := (List.dedup_sublist (value.map Prod.fst)).length_le
    rw [List.length_map] at hle
    omega
  have hname : ∀ p ∈ value, ∃ k ∈ ["postgres", "artifacts", "config"], p.1 = k.toList := fun p hp => by
    obtain ⟨k, hk, hpk⟩ := hmem p hp
    exact ⟨k, hknown k (List.mem_map_of_mem hk), hpk⟩
  have hunknown : ¬(value.map Prod.fst).filter (· ∉ texts ["postgres", "artifacts", "config"]) ≠ [] := by
    rw [not_not, List.filter_eq_nil_iff]
    intro key hkey
    obtain ⟨p, hp, rfl⟩ := List.mem_map.mp hkey
    obtain ⟨k, hk, hpk⟩ := hname p hp
    rw [decide_eq_true_eq, not_not, hpk]
    exact List.mem_map_of_mem hk
  have hplain : value.forM (fun p => rejectSecretFieldName env p.1) = .ok () := forM_ok fun p hp => by
    obtain ⟨k, hk, hpk⟩ := hname p hp
    have hfixed : (["postgres", "artifacts", "config"].all fun k => k.toList.all isPathChar &&
        !namesSecret none (nameSegments (k.toList.map Char.toLower))) = true := by decide +kernel
    simp only [List.all_eq_true, Bool.and_eq_true, Bool.not_eq_true'] at hfixed
    rw [hpk]
    exact (rejectSecretFieldName_eq_ok (hfixed k hk).1).mpr (hfixed k hk).2
  obtain ⟨hpostgres, hartifacts, hconfig⟩ := x.items_lookup
  have hlookup := lookup_eq_of_pairs hperm hnodup hmem
  show modelValidate env (.dict (Value.ofJsonFields m)) = _
  rw [modelValidate, env.lax.mapping_dict, read_some, ok_bind, hvalue, ok_bind, raiseIf_of_not hne, ok_bind,
    raiseIf_of_not hfew, ok_bind, validateComponentKeys]
  simp only [raiseIf_of_not hunknown, ok_bind, hplain, hlookup, hpostgres, hartifacts, hconfig]
  rfl

/-! ### The manifest -/

structure BackupManifest.Valid (m : BackupManifest) : Prop where
  hostname : isSafeName 252 m.hostname = true
  app : m.app.Valid
  schemaIdentity : m.schemaIdentity.Valid
  config : m.config.Valid
  components : m.components.Valid
  artifactReconciliation : m.artifactReconciliation.Valid
  retention : m.retention.Valid
  quiesce : m.quiesce.Valid
  rpoRto : m.rpoRto.Valid
  consistent : validateTimeOrderAndConsistency m = .ok m

theorem validateTimeOrderAndConsistency_eq_ok {n : BackupManifest} (h : validateTimeOrderAndConsistency m = .ok n) :
    n = m := by
  simp only [validateTimeOrderAndConsistency, bind_eq_ok] at h
  obtain ⟨_, -, _, -, _, -, _, -, _, -, h⟩ := h
  cases h
  rfl

theorem BackupManifest.valid (h : modelValidate env payload = .ok m) : m.Valid := by
  simp only [modelValidate, bind_eq_ok, mapError_eq_ok] at h
  obtain ⟨items, -, _, -, runId, -, createdAt, -, tStart, -, tEnd, -, hostname, hhostname, app, happ, schema, hschema,
    config, hconfig, components, hcomponents, reconciliation, hreconciliation, retention, hretention, quiesce, hquiesce,
    rpoRto, hrpoRto, incomplete, -, h⟩ := h
  have hm := validateTimeOrderAndConsistency_eq_ok h
  rw [← hm] at h
  subst hm
  obtain ⟨_, -, hhostname⟩ := required_eq_ok hhostname
  obtain ⟨_, -, hhostname⟩ := checked_eq_ok.mp hhostname
  obtain ⟨hsafe, rfl⟩ := ensure_eq_ok.mp hhostname
  obtain ⟨_, -, happ⟩ := required_eq_ok happ
  obtain ⟨_, -, hschema⟩ := required_eq_ok hschema
  obtain ⟨_, -, hconfig⟩ := required_eq_ok hconfig
  obtain ⟨_, -, hcomponents⟩ := required_eq_ok hcomponents
  obtain ⟨_, -, hreconciliation⟩ := required_eq_ok hreconciliation
  obtain ⟨_, -, hretention⟩ := required_eq_ok hretention
  obtain ⟨_, -, hrpoRto⟩ := required_eq_ok hrpoRto
  refine ⟨hsafe, BackupAppIdentity.valid happ, BackupSchemaIdentity.valid hschema, BackupConfigSnapshot.valid hconfig,
    Components.valid hcomponents, ArtifactReconciliation.valid hreconciliation, BackupRetentionMeta.valid hretention, ?_,
    BackupRpoRto.valid hrpoRto, h⟩
  rcases withDefault_eq_ok hquiesce with rfl | ⟨_, hquiesce⟩
  · exact ⟨show InRange 0 3600 0 from ⟨by decide, by decide⟩⟩
  · exact BackupQuiesceInfo.valid hquiesce

theorem timestamp_reads {v : Value (Foreign Other)} {u : Instant} (h : v.Reads (.str (env.lax.isoformat u))) :
    timestamp env v = .ok u := by
  refine checked_eq_ok.mpr ⟨u.datetime, read_eq_ok.mpr (h.str ▸ env.lax.datetime_isoformat u), ?_⟩
  have hrange : 0 ≤ (u.micros : Int) - 0 ∧ ((u.micros : Int) - 0).toNat < 315537897600000000 := by
    have := u.bounded
    omega
  show (if h : 0 ≤ (u.micros : Int) - 0 ∧ ((u.micros : Int) - 0).toNat < 315537897600000000 then
    .ok { micros := ((u.micros : Int) - 0).toNat, bounded := h.2 } else _ : Except Refusal Instant) = _
  rw [dif_pos hrange]
  cases u
  simp

theorem BackupManifest.modelValidate_reads (hm : m.Valid) (hpath : Clean env m.app.deployPath)
    (horphans : ∀ o ∈ m.artifactReconciliation.orphanFiles, o.relpath ≠ [] ∧ Clean env o.relpath)
    (h : (Value.dict payload).Reads (.obj (m.modelDump env))) : modelValidate env payload = .ok m := by
  obtain ⟨items, heq, hitems, hfields⟩ := fields_reads env h (by simp [modelDump])
  obtain rfl := Value.dict.inj heq
  simp only [modelDump, List.map_cons, List.map_nil] at hitems
  obtain ⟨hversion, hrunId, hcreatedAt, htStart, htEnd, hhostname, happ, hschema, hconfig, hcomponents, hreconciliation,
    hretention, hquiesce, hrpoRto, hincomplete⟩ := hfields
  have hkey : schemaKey payload = "schema" := by
    obtain ⟨x, hx, -⟩ := hschema
    rw [schemaKey, show Value.item? payload "schema".toList = some x from hx]
    rfl
  have hversionOk : ∀ x : Value (Foreign Other), x.Reads (.str schemaVersion) →
      (literalOf [(schemaVersion, ())] x : Except (Invalid Refusal) Unit) = .ok () := by
    intro x hx
    rw [hx.str]
    rfl
  have hrunIdOk : ∀ x : Value (Foreign Other), x.Reads (.str m.runId.str) →
      (Lax.read (env.lax.uuid x) : Except (Invalid Refusal) Uuid) = .ok m.runId := fun x hx =>
    read_eq_ok.mpr (hx.str ▸ env.lax.uuid_str m.runId)
  have hhost : Within 1 253 m.hostname := length_of_isSafeName hm.hostname
  have hhostOk : validateHostname m.hostname = .ok m.hostname := by
    rw [validateHostname, strip_of_pathChars (isSafeName_iff.mp hm.hostname).1]
    exact ensure_eq_ok.mpr ⟨hm.hostname, rfl⟩
  unfold modelValidate
  rw [hkey, hitems, ok_bind, withDefault_reads hversion hversionOk, ok_bind, required_reads hrunId hrunIdOk, ok_bind,
    required_reads hcreatedAt fun _ => timestamp_reads, ok_bind, required_reads htStart fun _ => timestamp_reads, ok_bind,
    required_reads htEnd fun _ => timestamp_reads, ok_bind, required_reads hhostname fun _ => checked_reads hhost hhostOk,
    ok_bind, required_reads happ fun _ => BackupAppIdentity.modelValidate_reads hm.app hpath, ok_bind,
    required_reads hschema fun _ => BackupSchemaIdentity.modelValidate_reads hm.schemaIdentity, ok_bind,
    required_reads hconfig fun _ => BackupConfigSnapshot.modelValidate_reads hm.config, ok_bind,
    required_reads hcomponents fun _ => Components.modelValidate_reads hm.components, ok_bind,
    required_reads hreconciliation fun _ =>
      ArtifactReconciliation.modelValidate_reads hm.artifactReconciliation horphans, ok_bind,
    required_reads hretention fun _ => BackupRetentionMeta.modelValidate_reads hm.retention, ok_bind,
    withDefault_reads hquiesce fun _ => BackupQuiesceInfo.modelValidate_reads hm.quiesce, ok_bind,
    required_reads hrpoRto fun _ => BackupRpoRto.modelValidate_reads hm.rpoRto, ok_bind,
    withDefault_reads hincomplete fun _ => bool_reads, ok_bind]
  show (validateTimeOrderAndConsistency m).mapError Invalid.raised = .ok m
  rw [hm.consistent]
  rfl

theorem BackupManifest.relpath_ne_nil {n : BackupManifest} (h : (Value.dict payload).Reads (.obj (m.modelDump env)))
    (hread : modelValidate env payload = .ok n) : ∀ o ∈ m.artifactReconciliation.orphanFiles, o.relpath ≠ [] := by
  obtain ⟨items, heq, hitems, hfields⟩ := fields_reads env h (by simp [modelDump])
  obtain rfl := Value.dict.inj heq
  obtain ⟨-, -, -, -, -, -, -, -, -, -, ⟨v, hv, hreads⟩, -⟩ := hfields
  simp only [modelValidate, bind_eq_ok] at hread
  obtain ⟨items', hitems', _, -, _, -, _, -, _, -, _, -, _, -, _, -, _, -, _, -, _, -, reconciliation, hreconciliation, -⟩ :=
    hread
  obtain rfl := itemsOf_dict hitems'
  obtain ⟨v', hv', hreconciliation⟩ := required_eq_ok hreconciliation
  obtain rfl := Option.some.inj (hv.symm.trans hv')
  exact ArtifactReconciliation.relpath_ne_nil hreads hreconciliation

/-! ### The walk over the texts -/

variable (env) in
/-- `_reject_secret_field_name` lets the key pass. -/
def PlainKey (key : String) : Prop := rejectSecretFieldName env key.toList = .ok ()

mutual

theorem walkRejectSecrets_ofJson : ∀ (a : Json) (path : Text),
    walkRejectSecrets env path (Value.ofJson a) = .ok () ↔ a.All (PlainKey env) (Clean env)
  | .null, _ | .bool _, _ | .num _, _ => ⟨fun _ => trivial, fun _ => rfl⟩
  | .str _, _ => rejectSecretString_eq_ok
  | .arr l, path => walkEntries_ofJson l path 0
  | .obj l, path => walkItems_ofJson l path

theorem walkEntries_ofJson : ∀ (l : List Json) (path : Text) (i : Nat),
    walkEntries env path i (Value.ofJsonEntries l) = .ok () ↔ Json.AllEntries (PlainKey env) (Clean env) l
  | [], _, _ => ⟨fun _ => trivial, fun _ => rfl⟩
  | a :: l, path, i => by
    rw [Value.ofJsonEntries, walkEntries, bind_eq_ok, Json.AllEntries, ← walkRejectSecrets_ofJson a, ← walkEntries_ofJson l]
    constructor
    · rintro ⟨⟨⟩, ha, hl⟩
      exact ⟨ha, hl⟩
    · rintro ⟨ha, hl⟩
      exact ⟨(), ha, hl⟩

theorem walkItems_ofJson : ∀ (l : List (String × Json)) (path : Text),
    walkItems env path (Value.ofJsonFields l) = .ok () ↔ Json.AllFields (PlainKey env) (Clean env) l
  | [], _ => ⟨fun _ => trivial, fun _ => rfl⟩
  | (k, a) :: l, path => by
    rw [Value.ofJsonFields, walkItems, Json.AllFields, ← walkRejectSecrets_ofJson a (path ++ '.' :: k.toList),
      ← walkItems_ofJson l path]
    simp only [bind_eq_ok, PlainKey]
    constructor
    · rintro ⟨⟨⟩, hk, ⟨⟩, ha, hl⟩
      exact ⟨⟨hk, ha⟩, hl⟩
    · rintro ⟨⟨hk, ha⟩, hl⟩
      exact ⟨(), hk, (), ha, hl⟩

end

theorem walk_reads {v : Value (Foreign Other)} {a : Json} (h : v.Reads a) (path : Text) :
    walkRejectSecrets env path v = .ok () ↔ a.All (PlainKey env) (Clean env) := by
  obtain ⟨b, rfl, hb⟩ := h
  rw [walkRejectSecrets_ofJson, ← Json.all_sorted b, hb, Json.all_sorted]

def fieldNames : List String :=
  ["schema_version", "run_id", "created_at", "t_start", "t_end", "hostname", "app", "schema", "config", "components",
    "artifact_reconciliation", "retention", "quiesce", "rpo_rto", "partial", "git_commit", "deploy_path", "service_name",
    "alembic_head_expected", "alembic_head_observed", "postgres_version", "name", "sha256", "size", "registry_revision", "files",
    "seccomp_sha256", "filename", "sha256_ciphertext", "size_ciphertext", "cipher", "format", "object_count", "bytes_logical",
    "inventory_sha256", "content_hash", "storage_state", "relpath", "action", "db_rows", "fs_objects", "missing_blobs",
    "orphan_files", "skipped_symlinks", "keep_local_runs", "keep_offhost_days", "mode", "duration_seconds", "targets_proposed",
    "rpo_seconds_target", "rto_seconds_target", "rpo_seconds_measured", "rto_seconds_measured", "postgres", "artifacts"]

theorem plainKey_of_mem {k : String} (hk : k ∈ fieldNames) : PlainKey env k := by
  have hfixed : (fieldNames.all fun k => k.toList.all isPathChar &&
      !namesSecret none (nameSegments (k.toList.map Char.toLower))) = true := by decide +kernel
  simp only [List.all_eq_true, Bool.and_eq_true, Bool.not_eq_true'] at hfixed
  exact (rejectSecretFieldName_eq_ok (hfixed k hk).1).mpr (hfixed k hk).2

section Texts

theorem all_obj :
    (Json.obj l).All (PlainKey env) (Clean env) ↔ Json.AllFields (PlainKey env) (Clean env) l := by rw [Json.All]

theorem all_str : (Json.str t).All (PlainKey env) (Clean env) ↔ Clean env t := by rw [Json.All]

theorem all_num (n : Int) : (Json.num n).All (PlainKey env) (Clean env) ↔ True := by simp [Json.All]

theorem all_bool (b : Bool) : (Json.bool b).All (PlainKey env) (Clean env) ↔ True := by simp [Json.All]

theorem all_textOrNull : (textOrNull r).All (PlainKey env) (Clean env) ↔ ∀ t ∈ r, Clean env t := by
  cases r <;> simp [textOrNull, Json.All]

theorem all_intOrNull (r : Option Int) : (intOrNull r).All (PlainKey env) (Clean env) ↔ True := by
  cases r <;> simp [intOrNull, Json.All]

theorem all_arr {dump : α → Json} {l : List α} :
    (Json.arr (l.map dump)).All (PlainKey env) (Clean env) ↔ ∀ a ∈ l, (dump a).All (PlainKey env) (Clean env) := by
  rw [Json.All, Json.allEntries_iff, List.forall_mem_map]

theorem BackupAppIdentity.all_dump {x : BackupAppIdentity} (hx : x.Valid) :
    x.modelDump.All (PlainKey env) (Clean env) ↔ Clean env x.deployPath ∧ Clean env x.serviceName := by
  simp (disch := decide) only [modelDump, all_obj, all_str, Json.AllFields, plainKey_of_mem, clean_of_hex hx.gitCommit.2,
    true_and, and_true]

theorem BackupSchemaIdentity.all_dump {x : BackupSchemaIdentity} (hx : x.Valid) :
    x.modelDump.All (PlainKey env) (Clean env) ↔ ∀ t ∈ x.postgresVersion, Clean env t := by
  simp (disch := decide) only [modelDump, all_obj, all_str, Json.AllFields, plainKey_of_mem, all_textOrNull,
    clean_of_hex hx.alembicHeadExpected.2, clean_of_hex hx.alembicHeadObserved.2, true_and, and_true]

theorem ConfigFileHash.all_dump {x : ConfigFileHash} (hx : x.Valid) :
    x.modelDump.All (PlainKey env) (Clean env) ↔ Clean env x.name := by
  simp (disch := decide) only [modelDump, all_obj, all_str, all_num, Json.AllFields, plainKey_of_mem,
    clean_of_isSha256 hx.sha256, true_and, and_true]

theorem BackupConfigSnapshot.all_dump {x : BackupConfigSnapshot} (hx : x.Valid) :
    x.modelDump.All (PlainKey env) (Clean env) ↔ ∀ f ∈ x.files, Clean env f.name := by
  have hseccomp : (∀ t ∈ x.seccompSha256, Clean env t) ↔ True :=
    iff_true_intro fun t ht => clean_of_isSha256 (hx.seccompSha256 t ht)
  have hfiles : (∀ f ∈ x.files, f.modelDump.All (PlainKey env) (Clean env)) ↔ ∀ f ∈ x.files, Clean env f.name :=
    forall₂_congr fun f hf => ConfigFileHash.all_dump (hx.files.2 f hf)
  simp (disch := decide) only [modelDump, all_obj, all_str, all_arr, Json.AllFields, plainKey_of_mem, all_textOrNull, hfiles,
    clean_of_isSha256 hx.registryRevision, hseccomp, true_and, and_true]

def BackupComponent.freeTexts (x : BackupComponent) : List Text := x.filename :: x.cipher :: x.format.toList

theorem BackupComponent.all_dump {x : BackupComponent} (hx : x.Valid) :
    x.modelDump.All (PlainKey env) (Clean env) ↔ ∀ t ∈ x.freeTexts, Clean env t := by
  have hinventory : (∀ t ∈ x.inventorySha256, Clean env t) ↔ True :=
    iff_true_intro fun t ht => clean_of_isSha256 (hx.inventorySha256 t ht)
  simp (disch := decide) only [modelDump, all_obj, all_str, all_num, all_intOrNull, Json.AllFields, plainKey_of_mem,
    all_textOrNull, clean_of_isSha256 hx.sha256Ciphertext, hinventory, true_and, and_true, freeTexts, List.forall_mem_cons]
  simp only [Option.mem_toList, Option.mem_def]

theorem MissingBlobRecord.all_dump {x : MissingBlobRecord} (hx : x.Valid) :
    x.modelDump.All (PlainKey env) (Clean env) := by
  have hstate : Clean env x.storageState :=
    clean_fixed _ (List.mem_cons_of_mem _ (List.mem_append_left _ hx.storageState))
  simp (disch := decide) only [modelDump, all_obj, all_str, Json.AllFields, plainKey_of_mem, clean_of_isSha256 hx.contentHash,
    hstate, and_self]

theorem OrphanFileRecord.all_dump (x : OrphanFileRecord) :
    x.modelDump.All (PlainKey env) (Clean env) ↔ Clean env x.relpath ∧ Clean env x.action := by
  simp (disch := decide) only [modelDump, all_obj, all_str, Json.AllFields, plainKey_of_mem, true_and, and_true]

theorem ArtifactReconciliation.all_dump {x : ArtifactReconciliation} (hx : x.Valid) :
    x.modelDump.All (PlainKey env) (Clean env) ↔ ∀ o ∈ x.orphanFiles, Clean env o.relpath ∧ Clean env o.action := by
  have hmissing : (∀ r ∈ x.missingBlobs, r.modelDump.All (PlainKey env) (Clean env)) ↔ True :=
    iff_true_intro fun r hr => MissingBlobRecord.all_dump (hx.missingBlobs.2 r hr)
  simp (disch := decide) only [modelDump, all_obj, all_num, all_arr, Json.AllFields, plainKey_of_mem, hmissing,
    OrphanFileRecord.all_dump, true_and, and_true]

theorem BackupRetentionMeta.all_dump (x : BackupRetentionMeta) : x.modelDump.All (PlainKey env) (Clean env) := by
  simp (disch := decide) only [modelDump, all_obj, all_num, Json.AllFields, plainKey_of_mem, and_self]

theorem BackupQuiesceInfo.all_dump (x : BackupQuiesceInfo) : x.modelDump.All (PlainKey env) (Clean env) := by
  have hmode : Clean env x.mode.text := clean_fixed _ (by cases x.mode <;> simp)
  simp (disch := decide) only [modelDump, all_obj, all_str, all_num, Json.AllFields, plainKey_of_mem, hmode, and_self]

theorem BackupRpoRto.all_dump (x : BackupRpoRto) : x.modelDump.All (PlainKey env) (Clean env) := by
  simp (disch := decide) only [modelDump, all_obj, all_bool, all_num, all_intOrNull, Json.AllFields, plainKey_of_mem, and_self]

theorem Components.all_dump (hx : x.Valid) :
    x.modelDump.All (PlainKey env) (Clean env) ↔ ∀ p ∈ x.items, ∀ t ∈ p.2.freeTexts, Clean env t := by
  have hkeys : ∀ k ∈ ["postgres", "artifacts", "config"], PlainKey env k := by
    intro k hk
    refine plainKey_of_mem ?_
    revert k
    decide
  rw [modelDump, all_obj, Json.allFields_iff, List.forall_mem_map]
  refine forall₂_congr fun p hp => ?_
  rw [and_iff_right (hkeys p.1 (x.items_keys.2.1 p.1 (List.mem_map_of_mem hp))), BackupComponent.all_dump (hx.components p hp)]

def BackupManifest.freeTexts (m : BackupManifest) : List Text :=
  [m.hostname, m.app.deployPath, m.app.serviceName] ++ m.schemaIdentity.postgresVersion.toList ++
    m.config.files.map (·.name) ++ m.components.items.flatMap (fun p => p.2.freeTexts) ++
    m.artifactReconciliation.orphanFiles.flatMap fun o => [o.relpath, o.action]

theorem BackupManifest.all_dump (hm : m.Valid) :
    (Json.obj (m.modelDump env)).All (PlainKey env) (Clean env) ↔ ∀ t ∈ m.freeTexts, Clean env t := by
  have hversion : Clean env schemaVersion := clean_fixed _ List.mem_cons_self
  simp (disch := decide) only [modelDump, all_obj, all_str, all_bool, Json.AllFields, plainKey_of_mem, hversion, clean_str,
    clean_isoformat, BackupAppIdentity.all_dump hm.app, BackupSchemaIdentity.all_dump hm.schemaIdentity,
    BackupConfigSnapshot.all_dump hm.config, Components.all_dump hm.components,
    ArtifactReconciliation.all_dump hm.artifactReconciliation, BackupRetentionMeta.all_dump, BackupQuiesceInfo.all_dump,
    BackupRpoRto.all_dump, true_and, and_true]
  simp only [freeTexts, List.forall_mem_append, List.forall_mem_cons, List.forall_mem_map, List.forall_mem_flatMap,
    Option.mem_toList, Option.mem_def, List.not_mem_nil, false_imp_iff, implies_true, and_true, and_assoc]

end Texts

/-! ### The file -/

section Load
open Value

theorem loadable_obj (hkeys : (l.map Prod.fst).Nodup) (h : l.Forall fun f => Loadable f.2) : Loadable (.obj l) := by
  rw [Loadable]
  exact ⟨hkeys, loadableFields_iff.mpr (List.forall_iff_forall_mem.mp h)⟩

theorem loadable_arr {dump : α → Json} {l : List α} (h : ∀ a ∈ l, Loadable (dump a)) :
    Loadable (.arr (l.map dump)) := by
  rw [Loadable, loadableEntries_iff, List.forall_mem_map]
  exact h

theorem loadable_str (t : Text) : Loadable (.str t) := by simp [Loadable]

theorem loadable_num {least most n : Int} (hleast : 0 ≤ least) (hmost : most ≤ 50000000000) (hn : InRange least most n) :
    Loadable (.num n) := by
  have hsmall : n.natAbs < 10 ^ 11 := by
    obtain ⟨hlow, hhigh⟩ := hn
    omega
  have hdigits := (Nat.length_toDigits_le_iff (b := 10) (by decide) (by decide : 0 < 11)).mpr hsmall
  rw [Loadable]
  exact hdigits.trans (by decide)

theorem loadable_textOrNull (r : Option Text) : Loadable (textOrNull r) := by
  cases r <;> simp [textOrNull, Loadable]

theorem loadable_intOrNull {most : Int} {r : Option Int} (hmost : most ≤ 50000000000) (hr : ∀ n ∈ r, InRange 0 most n) :
    Loadable (intOrNull r) := by
  cases r with
  | none => simp [intOrNull, Loadable]
  | some n => exact loadable_num (Int.le_refl 0) hmost (hr n rfl)

theorem BackupComponent.loadable {x : BackupComponent} (hx : x.Valid) : Loadable x.modelDump := by
  refine loadable_obj (by simp) ?_
  exact ⟨loadable_str _, loadable_str _, loadable_num (by decide) (by decide) hx.sizeCiphertext, loadable_str _,
    loadable_textOrNull _, loadable_intOrNull (by decide) hx.objectCount, loadable_intOrNull (by decide) hx.bytesLogical,
    loadable_textOrNull _⟩

theorem Components.loadable (hx : x.Valid) : Loadable x.modelDump := by
  refine loadable_obj ?_ ?_
  · have hmap : (x.items.map fun p => (p.1, p.2.modelDump)).map Prod.fst = x.items.map Prod.fst := by simp
    rw [hmap]
    exact x.items_keys.1
  · rw [List.forall_iff_forall_mem, List.forall_mem_map]
    exact fun p hp => BackupComponent.loadable (hx.components p hp)

theorem BackupConfigSnapshot.loadable {x : BackupConfigSnapshot} (hx : x.Valid) : Loadable x.modelDump := by
  refine loadable_obj (by simp) ⟨loadable_str _, loadable_arr fun f hf => loadable_obj (by simp) ?_, loadable_textOrNull _⟩
  exact ⟨loadable_str _, loadable_str _, loadable_num (by decide) (by decide) (hx.files.2 f hf).size⟩

theorem ArtifactReconciliation.loadable {x : ArtifactReconciliation} (hx : x.Valid) : Loadable x.modelDump := by
  refine loadable_obj (by simp) ⟨loadable_num (by decide) (by decide) hx.dbRows, loadable_num (by decide) (by decide) hx.fsObjects,
    loadable_arr fun r _ => loadable_obj (by simp) ?_, loadable_arr fun o _ => loadable_obj (by simp) ?_,
    loadable_num (by decide) (by decide) hx.skippedSymlinks⟩
  · exact ⟨loadable_str _, loadable_str r.storageState⟩
  · exact ⟨loadable_str _, loadable_str o.action⟩

theorem BackupRpoRto.loadable {x : BackupRpoRto} (hx : x.Valid) : Loadable x.modelDump := by
  refine loadable_obj (by simp) ?_
  exact ⟨by simp [Loadable], loadable_num (by decide) (by decide) hx.rpoSecondsTarget,
    loadable_num (by decide) (by decide) hx.rtoSecondsTarget, loadable_intOrNull (by decide) hx.rpoSecondsMeasured,
    loadable_intOrNull (by decide) hx.rtoSecondsMeasured⟩

theorem BackupManifest.loadable (hm : m.Valid) : Loadable (.obj (m.modelDump env)) := by
  refine loadable_obj (by simp [modelDump]) ?_
  refine ⟨loadable_str _, loadable_str _, loadable_str _, loadable_str _, loadable_str _, loadable_str _,
    loadable_obj (by simp) ?_, loadable_obj (by simp) ?_, BackupConfigSnapshot.loadable hm.config,
    Components.loadable hm.components, ArtifactReconciliation.loadable hm.artifactReconciliation, loadable_obj (by simp) ?_,
    loadable_obj (by simp) ?_, BackupRpoRto.loadable hm.rpoRto, by simp [Loadable]⟩
  · exact ⟨loadable_str _, loadable_str _, loadable_str m.app.serviceName⟩
  · exact ⟨loadable_str _, loadable_str _, loadable_textOrNull _⟩
  · exact ⟨loadable_num (by decide) (by decide) hm.retention.keepLocalRuns,
      loadable_num (by decide) (by decide) hm.retention.keepOffhostDays⟩
  · exact ⟨loadable_str _, loadable_num (by decide) (by decide) hm.quiesce.durationSeconds⟩

end Load

/-! ### The round trip -/

variable (env) in
structure BackupManifest.Restorable (m : BackupManifest) : Prop where
  relpaths : ∀ o ∈ m.artifactReconciliation.orphanFiles, o.relpath ≠ []
  texts : ∀ t ∈ m.freeTexts, Clean env t
  size : (canonicalBytes env m).length ≤ 2000000

theorem hasVersion_reads (h : (Value.dict payload).Reads (.obj (m.modelDump env))) :
    hasVersion (Value.item? payload "schema_version".toList) = true := by
  obtain ⟨items, heq, -, hfields⟩ := fields_reads env h (by simp [BackupManifest.modelDump])
  obtain rfl := Value.dict.inj heq
  obtain ⟨x, hx, hreads⟩ := hfields.1
  rw [show Value.item? payload "schema_version".toList = some x from hx, hreads.str]
  rfl

theorem validateManifest_reads (hm : m.Valid) (h : (Value.dict payload).Reads (.obj (m.modelDump env))) :
    validateManifest env (.mapping payload) = .ok m ↔
      (∀ o ∈ m.artifactReconciliation.orphanFiles, o.relpath ≠ []) ∧ ∀ t ∈ m.freeTexts, Clean env t := by
  have hversion : ¬hasVersion (Value.item? payload "schema_version".toList) = false := by
    rw [hasVersion_reads h]
    decide
  rw [validateManifest, Source.payload, raiseIf_of_not hversion, ok_bind]
  simp only [bind_eq_ok, mapError_eq_ok]
  constructor
  · rintro ⟨⟨⟩, hwalk, hread⟩
    exact ⟨BackupManifest.relpath_ne_nil h hread, (BackupManifest.all_dump hm).mp ((walk_reads h _).mp hwalk)⟩
  · rintro ⟨hrelpaths, htexts⟩
    refine ⟨(), (walk_reads h _).mpr ((BackupManifest.all_dump hm).mpr htexts), ?_⟩
    refine BackupManifest.modelValidate_reads hm (htexts _ (by simp [BackupManifest.freeTexts])) (fun o ho => ?_) h
    refine ⟨hrelpaths o ho, htexts _ (List.mem_append_right _ (List.mem_flatMap.mpr ⟨o, ho, ?_⟩))⟩
    exact List.mem_cons_self

variable (env) in
/-- The manifest is validated to itself; stored at any path, and loaded from there, it comes back as it is, with the file
    that it would be written to again. -/
def BackupManifest.RoundTrips (m : BackupManifest) : Prop :=
  validateManifest env (.model m) = .ok m ∧
    ∀ (uuid : Uuid) (path : Path) (files : Files), path.absolute = true →
      ∃ digest files' data, storeManifest env uuid path m files = (.ok digest, files') ∧
        files' path = some data ∧ digest = env.sha256 data ∧ loadManifest env path files' = .ok m ∧
        canonicalManifestJson env m = .ok data

theorem validateManifest_valid {source : Source Other} (h : validateManifest env source = .ok m) : m.Valid := by
  simp only [validateManifest, bind_eq_ok, mapError_eq_ok] at h
  obtain ⟨_, -, _, -, h⟩ := h
  exact BackupManifest.valid h

theorem validateManifest_model (hm : m.Valid) :
    validateManifest env (.model m) = .ok m ↔
      (∀ o ∈ m.artifactReconciliation.orphanFiles, o.relpath ≠ []) ∧ ∀ t ∈ m.freeTexts, Clean env t :=
  validateManifest_reads hm (Value.reads_ofJson (.obj (m.modelDump env)))

theorem canonicalManifestJson_eq_ok (h : validateManifest env (.model m) = .ok m) :
    canonicalManifestJson env m = .ok (canonicalBytes env m) := by
  rw [canonicalManifestJson, h]
  rfl

theorem loadManifest_canonical (hm : m.Valid) {path : Path} {files : Files} (hfile : files path = some (canonicalBytes env m)) :
    loadManifest env path files = .ok m ↔ m.Restorable env := by
  obtain ⟨payload, hpayload⟩ : ∃ payload, (Value.ofJson (Json.obj (m.modelDump env)).sorted : Value (Foreign Other)) =
      .dict payload := ⟨_, rfl⟩
  have hreads : (Value.dict payload).Reads (.obj (m.modelDump env)) := hpayload ▸ Value.reads_sorted _
  have hloads : ((decodeUtf8 (canonicalBytes env m)).bind fun s => Value.loads env.float s.toList) = some (.dict payload) := by
    rw [canonicalBytes, decodeUtf8_utf8, Option.bind_some, String.toList_ofList,
      Value.loads_dumps env.float (BackupManifest.loadable hm), hpayload]
  unfold loadManifest
  rw [hfile]
  dsimp only
  rw [hloads]
  constructor
  · intro h
    split at h
    · cases h
    · rename_i hsize
      obtain ⟨hrelpaths, htexts⟩ := (validateManifest_reads hm hreads).mp h
      exact ⟨hrelpaths, htexts, Nat.not_lt.mp hsize⟩
  · rintro ⟨hrelpaths, htexts, hsize⟩
    rw [if_neg (Nat.not_lt.mpr hsize)]
    exact (validateManifest_reads hm hreads).mpr ⟨hrelpaths, htexts⟩

theorem Path.temporary_ne (path : Path) (uuid : Uuid) : path ≠ path.temporary uuid := by
  intro heq
  have hlength := congrArg (fun p : Path => p.name.length) heq
  simp only [temporary, withName, List.length_cons, List.length_append] at hlength
  omega

theorem storeManifest_eq (h : validateManifest env (.model m) = .ok m) (uuid : Uuid) {path : Path} (files : Files)
    (hpath : path.absolute = true) :
    ∃ files', storeManifest env uuid path m files = (.ok (env.sha256 (canonicalBytes env m)), files') ∧
      files' path = some (canonicalBytes env m) := by
  have hstorable : storable env path m = .ok (canonicalBytes env m) := by
    rw [storable, h, ok_bind, canonicalManifestJson_eq_ok h, ok_bind, raiseIf_of_not (by simp [hpath])]
    rfl
  unfold storeManifest
  rw [hstorable]
  refine ⟨_, rfl, ?_⟩
  have hne := path.temporary_ne uuid
  simp [Files.set, Files.replace, hne]

/-- Whatever mapping a manifest comes from, it is validated to itself, stored and loaded as it is exactly where none of its
    orphans has an empty path, none of its texts is refused as a secret, and its file is within the bound of the reader. -/
theorem manifest_round_trips (env : Environment Other) (h : validateManifest env (.mapping payload) = .ok m) :
    m.RoundTrips env ↔ m.Restorable env := by
  have hm := validateManifest_valid h
  constructor
  · rintro ⟨hself, hfile⟩
    obtain ⟨digest, files', data, -, hdata, -, hload, hcanonical⟩ :=
      hfile { int := 0, bounded := by decide } { absolute := true, parent := [], name := [] } (fun _ => none) rfl
    rw [canonicalManifestJson_eq_ok hself] at hcanonical
    obtain rfl := Except.ok.inj hcanonical
    exact (loadManifest_canonical hm hdata).mp hload
  · intro hrestorable
    have hself := (validateManifest_model hm).mpr ⟨hrestorable.relpaths, hrestorable.texts⟩
    refine ⟨hself, fun uuid path files hpath => ?_⟩
    obtain ⟨files', hstore, hdata⟩ := storeManifest_eq hself uuid files hpath
    exact ⟨_, files', _, hstore, hdata, rfl, (loadManifest_canonical hm hdata).mpr hrestorable,
      canonicalManifestJson_eq_ok hself⟩

/-! ### An example -/

def newYear : Instant := { micros := 63902822400000000, bounded := by decide }

def newYearText : Text := "2026-01-01T00:00:00Z".toList

-- The parts of lax mode that the mappings below need; a moment is written as it really is for the one that they have.
def exampleLax : Lax (Foreign Text) where
  text | .str t => some t | _ => none
  int | .int n => some n | _ => none
  bool | .bool b => some b | _ => none
  uuid | .str t => uuidOfText (fun _ => none) t | _ => none
  datetime
    | .str t => some (if t = newYearText then newYear.datetime else { wall := Nat.ofDigitChars 10 t 0, offset := some 0 })
    | _ => none
  sequence | .list l => some l | .tuple l => some l | _ => none
  mapping | .dict items => some items | _ => none
  isoformat u := if u = newYear then newYearText else Nat.toDigits 10 u.micros
  text_str _ := rfl
  int_int _ := rfl
  bool_bool _ := rfl
  uuid_str u := u.uuidOfText_str _
  datetime_isoformat u := by
    by_cases hu : u = newYear
    · subst hu
      rfl
    · have hne : Nat.toDigits 10 u.micros ≠ newYearText := fun heq => by
        have hdash : '-' ∈ Nat.toDigits 10 u.micros := heq ▸ by decide
        exact absurd (Nat.isDigit_of_mem_toDigits (by decide) (by decide) hdash) (by decide)
      rw [if_neg hu]
      show some (if Nat.toDigits 10 u.micros = newYearText then newYear.datetime
        else { wall := Nat.ofDigitChars 10 (Nat.toDigits 10 u.micros) 0, offset := some 0 }) = _
      rw [if_neg hne, Nat.ofDigitChars_ten_toDigits]
      rfl
  isoformat_mem {u c} hc := by
    split at hc
    · have hall : (newYearText.all fun c => c.isDigit || decide (c ∈ ['-', ':', '.', 'T', 'Z'])) = true := by decide
      simp only [List.all_eq_true, Bool.or_eq_true, decide_eq_true_eq] at hall
      exact hall c hc
    · exact Or.inl (Nat.isDigit_of_mem_toDigits (by decide) (by decide) hc)
  sequence_list _ := rfl
  mapping_dict _ := rfl

def exampleEnvironment : Environment Text where
  lower t := if t.all (fun c => c.toNat < 128) then t.map Char.toLower else t
  lower_ascii {t} h := if_pos (List.all_eq_true.mpr fun c hc => decide_eq_true (h c hc))
  lower_hex {t} h := by
    by_cases hall : t.all (fun c => c.toNat < 128) = true
    · exact fun c hc => of_decide_eq_true (List.all_eq_true.mp hall c hc)
    · rw [if_neg hall] at h
      exact fun c hc => (isPathChar_plain (isPathChar_of_isLowerHex (h c hc))).1
  isAlnum _ := true
  lax := exampleLax
  float t := .other t
  sha256 _ := "f72d45865893f199532e01d77d846142583f2701a306afa98f4ca65f59841b4b".toList

def str (t : String) : Value (Foreign Text) := .str t.toList

def fields (l : List (String × Value (Foreign Text))) : List (Value (Foreign Text) × Value (Foreign Text)) :=
  l.map fun p => (str p.1, p.2)

def exampleHash : Text := List.replicate 64 'a'

/-- A mapping with one orphan. -/
def exampleMapping (relpath : String) : List (Value (Foreign Text) × Value (Foreign Text)) :=
  fields [("schema_version", str "backup-manifest.v1"), ("run_id", str "00000000-0000-0000-0000-000000000001"),
    ("created_at", .str newYearText), ("t_start", .str newYearText), ("t_end", .str newYearText), ("hostname", str "vps-1"),
    ("app", .dict (fields [("git_commit", str "0123ABC"), ("deploy_path", str "/srv/vuzol"), ("service_name", str "vuzol")])),
    ("schema", .dict (fields [("alembic_head_expected", str "0042"), ("alembic_head_observed", str "0042")])),
    ("config", .dict (fields [("registry_revision", .str exampleHash)])),
    ("components", .dict (fields [("postgres", .dict (fields [("filename", str "postgres.dump.enc"),
      ("sha256_ciphertext", .str exampleHash), ("size_ciphertext", .int 10), ("format", str "custom")]))])),
    ("artifact_reconciliation", .dict (fields [("db_rows", .int 0), ("fs_objects", .int 1),
      ("orphan_files", .list [.dict (fields [("relpath", str relpath), ("action", str "kept")])])])),
    ("retention", .dict (fields [("keep_local_runs", .int 7), ("keep_offhost_days", .int 30)])),
    ("rpo_rto", .dict (fields [("rpo_seconds_target", .int 86400), ("rto_seconds_target", .int 14400)]))]

def exampleManifest (relpath : String) : BackupManifest where
  runId := { int := 1, bounded := Uuid.one_lt }
  createdAt := newYear
  tStart := newYear
  tEnd := newYear
  hostname := "vps-1".toList
  app := { gitCommit := "0123abc".toList, deployPath := "/srv/vuzol".toList, serviceName := "vuzol".toList }
  schemaIdentity := { alembicHeadExpected := "0042".toList, alembicHeadObserved := "0042".toList, postgresVersion := none }
  config := { registryRevision := exampleHash, files := [], seccompSha256 := none }
  components :=
    { postgres := some
        { filename := "postgres.dump.enc".toList, sha256Ciphertext := exampleHash, sizeCiphertext := 10
          cipher := "aes-256-gcm".toList, format := some "custom".toList, objectCount := none, bytesLogical := none
          inventorySha256 := none }
      artifacts := none
      config := none }
  artifactReconciliation :=
    { dbRows := 0, fsObjects := 1, missingBlobs := [], orphanFiles := [{ relpath := relpath.toList, action := "kept".toList }]
      skippedSymlinks := 0 }
  retention := { keepLocalRuns := 7, keepOffhostDays := 30 }
  quiesce := { mode := .none, durationSeconds := 0 }
  rpoRto :=
    { targetsProposed := true, rpoSecondsTarget := 86400, rtoSecondsTarget := 14400, rpoSecondsMeasured := none
      rtoSecondsMeasured := none }
  incomplete := false

theorem exampleManifest_valid : (exampleManifest "tmp/x").Valid where
  hostname := by decide +kernel
  app := ⟨⟨⟨by decide, by decide⟩, by decide⟩, ⟨⟨by decide, by decide⟩, by decide, by decide⟩, ⟨by decide, by decide⟩⟩
  schemaIdentity := ⟨⟨⟨by decide, by decide⟩, by decide⟩, ⟨⟨by decide, by decide⟩, by decide⟩, (fun _ ht => by cases ht)⟩
  config := ⟨by decide +kernel, ⟨by decide, (fun _ hf => by cases hf)⟩, (fun _ ht => by cases ht)⟩
  components :=
    { ne_nil := by simp [exampleManifest, Components.items]
      components := by
        intro p hp
        cases List.mem_singleton.mp hp
        exact ⟨by decide +kernel, by decide +kernel, ⟨by decide, by decide⟩, ⟨by decide +kernel, by decide +kernel⟩,
          fun t ht => Option.mem_some.mp ht ▸ ⟨by decide +kernel, by decide +kernel⟩, (fun _ hn => by cases hn),
          (fun _ hn => by cases hn), (fun _ ht => by cases ht)⟩ }
  artifactReconciliation :=
    { dbRows := ⟨by decide, by decide⟩
      fsObjects := ⟨by decide, by decide⟩
      missingBlobs := ⟨by decide, (fun _ hr => by cases hr)⟩
      orphanFiles := by
        refine ⟨by decide, fun o ho => ?_⟩
        cases List.mem_singleton.mp ho
        exact ⟨⟨⟨by decide, by decide⟩, by decide, by decide, by decide, by decide +kernel⟩, ⟨by decide, by decide⟩⟩
      skippedSymlinks := ⟨by decide, by decide⟩ }
  retention := ⟨⟨by decide, by decide⟩, ⟨by decide, by decide⟩⟩
  quiesce := ⟨⟨by decide, by decide⟩⟩
  rpoRto := ⟨⟨by decide, by decide⟩, ⟨by decide, by decide⟩, (fun _ hn => by cases hn), (fun _ hn => by cases hn)⟩
  consistent := by decide +kernel

theorem manifest_round_trips_example : (exampleManifest "tmp/x").RoundTrips exampleEnvironment := by
  have hrelpaths : ∀ o ∈ (exampleManifest "tmp/x").artifactReconciliation.orphanFiles, o.relpath ≠ [] := by decide +kernel
  have htexts : ∀ t ∈ (exampleManifest "tmp/x").freeTexts, Clean exampleEnvironment t := by
    unfold Clean
    decide +kernel
  have haccepted := (validateManifest_model exampleManifest_valid).mpr ⟨hrelpaths, htexts⟩
  refine (manifest_round_trips exampleEnvironment haccepted).mpr ⟨hrelpaths, htexts, ?_⟩
  have hlength : (Json.obj ((exampleManifest "tmp/x").modelDump exampleEnvironment)).dumps.length ≤ 2000 := by
    decide +kernel
  exact (length_utf8_le _).trans ((Nat.mul_le_mul_left 4 hlength).trans (by decide))

theorem blank_relpath_lost : validateManifest exampleEnvironment (.mapping (exampleMapping " ")) = .ok (exampleManifest "") ∧
    ¬(exampleManifest "").RoundTrips exampleEnvironment := by
  have haccepted : validateManifest exampleEnvironment (.mapping (exampleMapping " ")) = .ok (exampleManifest "") := by
    decide +kernel
  refine ⟨haccepted, fun h => ?_⟩
  obtain ⟨hrelpaths, -⟩ := (validateManifest_model (validateManifest_valid haccepted)).mp h.1
  exact hrelpaths _ List.mem_cons_self rfl

end Vuzol.Backup.Manifest
