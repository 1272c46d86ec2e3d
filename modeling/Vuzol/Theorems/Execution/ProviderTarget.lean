import Vuzol.Theorems.Execution.Egress

/-! Which spellings of a provider's target are read: a name, or a name on port 443 (`_parse_provider_target`). -/

namespace Vuzol.Egress

open Vuzol.Lib

variable {env : HostEnv}
variable {ch : Char} {p raw : Text} {r : Text × Nat}

/-- The grammar: an accepted name, alone or followed by `:443`. -/
def Grammar (env : HostEnv) (raw : Text) (r : Text × Nat) : Prop :=
  ∃ H c, (raw = H ∨ raw = H ++ ":443".toList) ∧ validateHostname env H = .ok c ∧ r = (c, 443)

def Misread (env : HostEnv) (raw : Text) : Prop :=
  strip raw = raw ∧ ∃ H c, validateHostname env H = .ok c ∧
    ((∃ p, raw = '[' :: H ++ ']' :: p ∧ (p = [] ∨ ∃ q, p = ':' :: q ∧ intOfText env.decimal 10 q = some 443)) ∨
      ∃ p, raw = H ++ ':' :: p ∧ p ≠ "443".toList ∧ intOfText env.decimal 10 p = some 443)

theorem mark_not_mem_port {n : Int} (h : intOfText env.decimal 10 p = some n) (hmark : isMark ch = true) : ch ∉ p := by
  intro hc
  simp only [isMark, decide_eq_true_eq, List.mem_cons, List.not_mem_nil, or_false] at hmark
  rcases hmark with rfl | rfl | rfl | rfl | rfl | rfl | rfl <;> exact absurd (mem_of_intOfText h hc (by decide)) (by decide)

theorem port_ne_nil {n : Int} (h : intOfText env.decimal 10 p = some n) : p ≠ [] := by
  rintro rfl
  cases h

theorem Validated.isSpace {H c : Text} (V : Validated env H c) (h : ch ∈ H) : isSpace ch = false := by
  have hplain := List.any_eq_false.mp V.plain ch h
  rw [Bool.or_eq_true, not_or] at hplain
  exact Bool.not_eq_true _ ▸ hplain.1

theorem Validated.not_scheme {H c scheme : Text} (V : Validated env H c) (hascii : scheme.all isAscii = true)
    (hdot : '.' ∉ scheme) : H.map Char.toLower ≠ scheme := by
  intro heq
  have hH : H.all isAscii = true := List.all_eq_true.mpr fun ch hch =>
    isAscii_of_toLower (List.all_eq_true.mp hascii ch.toLower (heq ▸ List.mem_map_of_mem hch))
  obtain ⟨encoded, hencoded, hc⟩ := Option.map_eq_some_iff.mp V.encoded
  rw [env.encode_eq_some_ascii hH hencoded, heq] at hc
  have hmany := V.name.many
  rw [← hc, List.splitOn_eq_singleton hdot] at hmany
  simp at hmany

theorem colon_not_mem_lower {t : Text} (h : ':' ∉ t) : ':' ∉ t.map Char.toLower := fun hmem => by
  obtain ⟨ch, hch, hlower⟩ := List.mem_map.mp hmem
  exact h (eq_of_toLower_eq_colon hlower ▸ hch)

theorem Validated.no_scheme {H c scheme rest : Text} (V : Validated env H c) (hscheme : scheme = "http".toList ∨ scheme = "https".toList)
    (hrest : rest = [] ∨ ∃ p, rest = ':' :: p) : ¬scheme ++ [':'] <+: (H ++ rest).map Char.toLower := by
  have hcolon : ':' ∉ H.map Char.toLower := colon_not_mem_lower (V.no_mark (by decide))
  rintro ⟨tail, htail⟩
  rcases hrest with rfl | ⟨p, rfl⟩
  · rw [List.append_nil] at htail
    exact hcolon (htail ▸ List.mem_append_left _ (List.mem_append_right _ List.mem_cons_self))
  · rw [List.append_assoc, List.singleton_append, List.map_append, List.map_cons] at htail
    have hbefore := congrArg (before ':') htail
    rw [show Char.toLower ':' = ':' from rfl, before_append hcolon,
      before_append (by rcases hscheme with rfl | rfl <;> decide)] at hbefore
    rcases hscheme with rfl | rfl
    · exact V.not_scheme (by decide) (by decide) hbefore.symm
    · exact V.not_scheme (by decide) (by decide) hbefore.symm

theorem parseProviderTarget_eq_ok : parseProviderTarget env raw = .ok r ↔ raw ≠ [] ∧
    raw = strip raw ∧ ¬("://".toList <:+: raw ∨ '@' ∈ raw ∨ '/' ∈ raw ∨ '?' ∈ raw ∨ '#' ∈ raw ∨
      "http:".toList <+: env.lower raw ∨ "https:".toList <+: env.lower raw) ∧ detectPort env raw = .ok 443 ∧
      ∃ c, Validated env (extractHost raw) c ∧ r = (c, 443) := by
  unfold parseProviderTarget
  simp only [bind_eq_ok, raiseIf_eq_ok, exists_const, not_not, validateHostname_eq_ok, Except.ok.injEq, Ne]
  refine and_congr_right fun _ => and_congr_right fun _ => and_congr_right fun _ => ?_
  constructor
  · rintro ⟨port, hport, rfl, c, V, rfl⟩
    exact ⟨hport, c, V, rfl⟩
  · rintro ⟨hport, c, V, rfl⟩
    exact ⟨443, hport, rfl, c, V, rfl⟩

theorem parse_of_plain {c : Text} (hne : raw ≠ []) (hstrip : strip raw = raw) (hmarks : ∀ ch ∈ ['@', '/', '?', '#'], ch ∉ raw)
    (hscheme : ∀ scheme : Text, scheme = "http".toList ∨ scheme = "https".toList → ¬scheme ++ [':'] <+: raw.map Char.toLower)
    (hport : detectPort env raw = .ok 443) (V : Validated env (extractHost raw) c) :
    parseProviderTarget env raw = .ok (c, 443) := by
  refine parseProviderTarget_eq_ok.mpr ⟨hne, hstrip.symm, ?_, hport, c, V, rfl⟩
  rintro (⟨pre, post, hurl⟩ | h | h | h | h | h | h)
  · exact hmarks '/' (by decide) (hurl ▸ List.mem_append_left _ (List.mem_append_right _ (by decide)))
  · exact hmarks '@' (by decide) h
  · exact hmarks '/' (by decide) h
  · exact hmarks '?' (by decide) h
  · exact hmarks '#' (by decide) h
  · exact hscheme "http".toList (Or.inl rfl) (env.lower_scheme (Or.inl rfl) h)
  · exact hscheme "https".toList (Or.inr rfl) (env.lower_scheme (Or.inr rfl) h)

theorem portOfText_eq_ok {n : Int} : portOfText env raw p = .ok n ↔ intOfText env.decimal 10 p = some n := by
  unfold portOfText
  cases intOfText env.decimal 10 p <;> simp

theorem detectPort_bracket {H p : Text} (hH : ']' ∉ H) : detectPort env ('[' :: H ++ ']' :: p) = .ok 443 ↔
    p = [] ∨ ∃ q, p = ':' :: q ∧ intOfText env.decimal 10 q = some 443 := by
  have hafter : after ']' ('[' :: H ++ ']' :: p) = p := after_append fun h => by
    rcases List.mem_cons.mp h with h | h
    · cases h
    · exact hH h
  have hhead : ('[' :: H ++ ']' :: p).head? = some '[' := rfl
  unfold detectPort
  rw [if_pos hhead, raiseIf_of_not (by simp), ok_bind]
  dsimp only
  rw [hafter]
  cases p with
  | nil => simp
  | cons ch q =>
    rw [if_neg (by simp)]
    simp only [bind_eq_ok, raiseIf_eq_ok, exists_const, portOfText_eq_ok, List.head?_cons, List.drop_one, List.tail_cons, not_or,
      not_not, Ne, Option.some.injEq, reduceCtorEq, List.cons.injEq, false_or]
    constructor
    · rintro ⟨⟨rfl, -⟩, h⟩
      exact ⟨q, ⟨rfl, rfl⟩, h⟩
    · rintro ⟨q', ⟨rfl, rfl⟩, h⟩
      exact ⟨⟨rfl, port_ne_nil h⟩, h⟩

theorem detectPort_colon {H p : Text} (hhead : (H ++ ':' :: p).head? ≠ some '[') (hH : ':' ∉ H) (hp : ':' ∉ p) :
    detectPort env (H ++ ':' :: p) = .ok 443 ↔ intOfText env.decimal 10 p = some 443 := by
  have hcount : (H ++ ':' :: p).count ':' = 1 := by
    rw [List.count_append, List.count_cons_self, List.count_eq_zero.mpr hH, List.count_eq_zero.mpr hp]
  unfold detectPort
  rw [if_neg hhead, if_pos hcount]
  dsimp only
  rw [afterLast_append hp]
  simp only [bind_eq_ok, raiseIf_eq_ok, exists_const, portOfText_eq_ok]
  exact and_iff_right_of_imp port_ne_nil

theorem extractHost_bracket {H p : Text} (hstrip : strip ('[' :: H ++ ']' :: p) = '[' :: H ++ ']' :: p) (hH : ']' ∉ H) :
    extractHost ('[' :: H ++ ']' :: p) = H := by
  unfold extractHost
  dsimp only
  rw [hstrip, if_neg (by simp), if_pos ⟨rfl, by simp⟩, before_append fun h => by
    rcases List.mem_cons.mp h with h | h
    · cases h
    · exact hH h]
  rfl

theorem extractHost_colon {H p : Text} (hstrip : strip (H ++ ':' :: p) = H ++ ':' :: p)
    (hhead : (H ++ ':' :: p).head? ≠ some '[') (hH : ':' ∉ H) (hp : ':' ∉ p) : extractHost (H ++ ':' :: p) = H := by
  have hcount : (H ++ ':' :: p).count ':' = 1 := by
    rw [List.count_append, List.count_cons_self, List.count_eq_zero.mpr hH, List.count_eq_zero.mpr hp]
  unfold extractHost
  dsimp only
  rw [hstrip, if_neg (by simp), if_neg fun h => hhead h.1, if_neg (by omega), if_pos (by simp), before_append hH]

theorem Validated.first_ne_bracket {H c rest : Text} (V : Validated env H c) (hcons : H = ch :: rest) : ch ≠ '[' := by
  rintro rfl
  exact V.no_mark (show isMark '[' = true by decide) (hcons ▸ List.mem_cons_self)

theorem isSpace_port_mem (h : ch ∈ ":443".toList) : Lib.isSpace ch = false := by
  have hall : (":443".toList.all fun c => !Lib.isSpace c) = true := by decide
  simpa using List.all_eq_true.mp hall ch h

theorem parse_of_grammar (h : Grammar env raw r) : parseProviderTarget env raw = .ok r := by
  obtain ⟨H, c, hraw, hH, rfl⟩ := h
  have V := validateHostname_eq_ok.mp hH
  have hcolon : ':' ∉ H := V.no_mark (by decide)
  have hurl : ∀ m ∈ ['@', '/', '?', '#'], isMark m = true ∧ m ∉ ":443".toList := fun m hm => by
    simp only [List.mem_cons, List.not_mem_nil, or_false] at hm
    rcases hm with rfl | rfl | rfl | rfl <;> decide
  obtain ⟨ch, rest, hcons⟩ := List.exists_cons_of_ne_nil V.ne_nil
  have hbracket : ch ≠ '[' := V.first_ne_bracket hcons
  rcases hraw with rfl | rfl
  · have hstrip : strip raw = raw := strip_of_forall fun _ => V.isSpace
    have hcount : raw.count ':' = 0 := List.count_eq_zero.mpr hcolon
    have hhead : raw.head? ≠ some '[' := by
      rw [hcons, List.head?_cons]
      exact fun h => hbracket (Option.some.inj h)
    have hextract : extractHost raw = raw := by
      unfold extractHost
      dsimp only
      rw [hstrip, if_neg V.ne_nil, if_neg fun h => hhead h.1, if_neg (by omega), if_neg hcolon]
    refine parse_of_plain V.ne_nil hstrip (fun m hm => V.no_mark (hurl m hm).1) (fun scheme hscheme => ?_) ?_ (hextract.symm ▸ V)
    · have hnone := V.no_scheme hscheme (Or.inl rfl)
      rwa [List.append_nil] at hnone
    · unfold detectPort
      rw [if_neg hhead, if_neg (by omega)]
  · have hstrip : strip (H ++ ":443".toList) = H ++ ":443".toList := strip_of_forall fun m hm => by
      rcases List.mem_append.mp hm with hm | hm
      · exact V.isSpace hm
      · exact isSpace_port_mem hm
    have hhead : (H ++ ':' :: "443".toList).head? ≠ some '[' := by
      rw [hcons]
      exact fun h => hbracket (Option.some.inj h)
    have hextract : extractHost (H ++ ":443".toList) = H := extractHost_colon hstrip hhead hcolon (by decide)
    refine parse_of_plain (by rw [hcons]; exact List.cons_ne_nil _ _) hstrip (fun m hm hmem => ?_)
      (fun scheme hscheme => V.no_scheme hscheme (Or.inr ⟨_, rfl⟩)) ?_ (hextract.symm ▸ V)
    · rcases List.mem_append.mp hmem with hmem | hmem
      · exact V.no_mark (hurl m hm).1 hmem
      · exact (hurl m hm).2 hmem
    · have hdigits : Nat.toDigits 10 443 = "443".toList := by decide
      exact (detectPort_colon hhead hcolon (by decide)).mpr (hdigits ▸ @intOfText_toDigits env.decimal 443 (by decide))

theorem Misread.parse (h : Misread env raw) : ∃ r, parseProviderTarget env raw = .ok r := by
  obtain ⟨hstrip, H, c, hH, hraw⟩ := h
  have V := validateHostname_eq_ok.mp hH
  have hcolon : ':' ∉ H := V.no_mark (by decide)
  have hclose : ']' ∉ H := V.no_mark (by decide)
  have hurl : ∀ {m : Char}, m ∈ ['@', '/', '?', '#'] → isMark m = true ∧ m ≠ '[' ∧ m ≠ ']' ∧ m ≠ ':' := fun {m} hm => by
    simp only [List.mem_cons, List.not_mem_nil, or_false] at hm
    rcases hm with rfl | rfl | rfl | rfl <;> decide
  refine ⟨(c, 443), ?_⟩
  rcases hraw with ⟨p, rfl, hp⟩ | ⟨p, rfl, -, hp⟩
  · refine parse_of_plain (List.cons_ne_nil _ _) hstrip (fun m hm hmem => ?_) (fun scheme hscheme hpre => ?_)
      ((detectPort_bracket hclose).mpr hp) ((extractHost_bracket hstrip hclose).symm ▸ V)
    · obtain ⟨hmark, hopen, hclosing, hsep⟩ := hurl hm
      rcases List.mem_append.mp hmem with hmem | hmem
      · rcases List.mem_cons.mp hmem with hmem | hmem
        · exact hopen hmem
        · exact V.no_mark hmark hmem
      · rcases List.mem_cons.mp hmem with hmem | hmem
        · exact hclosing hmem
        · rcases hp with rfl | ⟨q, rfl, hq⟩
          · cases hmem
          · rcases List.mem_cons.mp hmem with hmem | hmem
            · exact hsep hmem
            · exact mark_not_mem_port hq hmark hmem
    · obtain ⟨tail, htail⟩ := hpre
      rcases hscheme with rfl | rfl
      · exact absurd (List.cons.inj htail).1 (by decide)
      · exact absurd (List.cons.inj htail).1 (by decide)
  · have hpcolon : ':' ∉ p := mark_not_mem_port hp (by decide)
    obtain ⟨ch, rest, hcons⟩ := List.exists_cons_of_ne_nil V.ne_nil
    have hbracket : ch ≠ '[' := V.first_ne_bracket hcons
    have hhead : (H ++ ':' :: p).head? ≠ some '[' := by
      rw [hcons]
      exact fun h => hbracket (Option.some.inj h)
    refine parse_of_plain (by rw [hcons]; exact List.cons_ne_nil _ _) hstrip (fun m hm hmem => ?_)
      (fun scheme hscheme => V.no_scheme hscheme (Or.inr ⟨_, rfl⟩)) ((detectPort_colon hhead hcolon hpcolon).mpr hp)
      ((extractHost_colon hstrip hhead hcolon hpcolon).symm ▸ V)
    obtain ⟨hmark, -, -, hsep⟩ := hurl hm
    rcases List.mem_append.mp hmem with hmem | hmem
    · exact V.no_mark hmark hmem
    · rcases List.mem_cons.mp hmem with hmem | hmem
      · exact hsep hmem
      · exact mark_not_mem_port hp hmark hmem

theorem Misread.not_grammar (h : Misread env raw) (r : Text × Nat) : ¬Grammar env raw r := by
  rintro ⟨H', c', hraw', hH', -⟩
  obtain ⟨-, H, c, hH, hraw⟩ := h
  have V := validateHostname_eq_ok.mp hH
  have V' := validateHostname_eq_ok.mp hH'
  rcases hraw with ⟨p, rfl, -⟩ | ⟨p, rfl, hp, -⟩
  · have hopen : '[' ∈ H' := by
      rcases hraw' with hraw' | hraw'
      · exact hraw' ▸ List.mem_cons_self
      · have hmem : '[' ∈ H' ++ ":443".toList := hraw' ▸ List.mem_cons_self
        rcases List.mem_append.mp hmem with hmem | hmem
        · exact hmem
        · exact absurd hmem (by decide)
    exact V'.no_mark (by decide) hopen
  · rcases hraw' with hraw' | hraw'
    · exact V'.no_mark (show isMark ':' = true by decide) (hraw' ▸ List.mem_append_right _ List.mem_cons_self)
    · have hafter := congrArg (after ':') hraw'
      rw [after_append (V.no_mark (by decide))] at hafter
      exact hp (hafter.trans (after_append (r := "443".toList) (V'.no_mark (by decide))))

theorem grammar_or_misread (h : parseProviderTarget env raw = .ok r) : Grammar env raw r ∨ Misread env raw := by
  obtain ⟨hne, hstrip, -, hport, c, V, rfl⟩ := parseProviderTarget_eq_ok.mp h
  have hH := validateHostname_eq_ok.mpr V
  by_cases hhead : raw.head? = some '['
  · have hclose : ']' ∈ raw := by
      unfold detectPort at hport
      rw [if_pos hhead] at hport
      obtain ⟨_, hclose, -⟩ := bind_eq_ok.mp hport
      exact not_not.mp (raiseIf_eq_ok.mp hclose)
    obtain ⟨l, p, rfl, hl⟩ := List.eq_append_cons_of_mem hclose
    cases l with
    | nil => cases hhead
    | cons ch H =>
      cases hhead
      have hclose : ']' ∉ H := fun h => hl (List.mem_cons_of_mem _ h)
      rw [extractHost_bracket hstrip.symm hclose] at hH
      exact Or.inr ⟨hstrip.symm, H, c, hH, Or.inl ⟨p, rfl, (detectPort_bracket hclose).mp hport⟩⟩
  · by_cases hcount : raw.count ':' = 1
    · obtain ⟨H, p, rfl, hHcolon, hpcolon⟩ := exists_of_count_eq_one hcount
      rw [extractHost_colon hstrip.symm hhead hHcolon hpcolon] at hH
      have hp := (detectPort_colon hhead hHcolon hpcolon).mp hport
      by_cases hplain : p = "443".toList
      · exact Or.inl ⟨H, c, Or.inr (by rw [hplain]; rfl), hH, rfl⟩
      · exact Or.inr ⟨hstrip.symm, H, c, hH, Or.inr ⟨p, rfl, hplain, hp⟩⟩
    · have hextract : extractHost raw = raw := by
        unfold extractHost
        dsimp only
        rw [← hstrip, if_neg hne, if_neg fun h => hhead h.1]
        split
        · rfl
        · exact if_neg fun h => hcount (by have := List.count_pos_iff.mpr h; omega)
      rw [hextract] at hH
      exact Or.inl ⟨raw, c, Or.inl rfl, hH, rfl⟩

/-- A target is read by its grammar, except in the two kinds of spelling beyond it. -/
theorem provider_target_grammar (env : HostEnv) (raw : Text) :
    (∀ r, parseProviderTarget env raw = .ok r ↔ Grammar env raw r) ↔ ¬Misread env raw := by
  constructor
  · intro hexact hmisread
    obtain ⟨r, hr⟩ := hmisread.parse
    exact hmisread.not_grammar r ((hexact r).mp hr)
  · exact fun hplain r => ⟨fun h => (grammar_or_misread h).resolve_right hplain, parse_of_grammar⟩

/-- A name in brackets is read, and so is a port with a sign. -/
theorem bracketed_target_read : ¬∀ (raw : Text)
    (r : Text × Nat), parseProviderTarget sampleEnv raw = .ok r ↔ Grammar sampleEnv raw r := by
  intro hexact
  have hread : parseProviderTarget sampleEnv "[example.com]".toList = .ok ("example.com".toList, 443) := by decide +kernel
  obtain ⟨H, c, hraw, hH, -⟩ := (hexact _ _).mp hread
  have V := validateHostname_eq_ok.mp hH
  refine V.no_mark (show isMark '[' = true by decide) ?_
  rcases hraw with hraw | hraw
  · exact hraw ▸ by decide
  · have hmem : '[' ∈ H ++ ":443".toList := hraw ▸ by decide
    rcases List.mem_append.mp hmem with hmem | hmem
    · exact hmem
    · exact absurd hmem (by decide)

end Vuzol.Egress
