import Vuzol.Telegram.Formatting

/-! The HTML that is rendered from balanced tokens is well formed. -/

namespace Vuzol.Formatting

open Vuzol.Lib Vuzol.Lib.Html

def nest (ps : List Paired) : Kind → Option (List Paired)
  | .opening p => some (p :: ps)
  | .closing p => if ps.head? = some p then some ps.tail else none
  | _ => some ps

def Balanced (kinds : List Kind) : Prop := kinds.foldlM nest [] = some []

instance (kinds : List Kind) : Decidable (Balanced kinds) := inferInstanceAs (Decidable (_ = _))

def IsHref (href : Text) : Prop := ∀ c ∈ href, c.toNat < 0x80 ∧ c ≠ '[' ∧ c ≠ ']'

structure Parsed (tokens : List Block) : Prop where
  balanced : Balanced (tokens.map (·.kind))
  children : ∀ b ∈ tokens, Balanced (b.children.map (·.kind))
  hrefs : ∀ b ∈ tokens, ∀ token ∈ b.children, ∀ href ∈ token.href, IsHref href

section Nest
variable {σ τ : Type} {f : σ → τ → Except FormatError σ} {kind : τ → Kind} {I : σ → List Paired → Prop} {xs : List τ} {s : σ}
  {p q : Paired} {ps ps' : List Paired}

theorem nest_closing (h : nest ps (.closing p) = some ps') : ps = p :: ps' := by
  change (if ps.head? = some p then some ps.tail else none) = some ps' at h
  split at h
  · rename_i hhead
    cases ps with
    | nil => cases hhead
    | cons q ps =>
      cases h
      rw [Option.some.inj hhead]
      rfl
  · cases h

theorem foldlM_nest (hstep : ∀ x ∈ xs, ∀ s ps ps', I s ps → nest ps (kind x) = some ps' → ∃ s', f s x = .ok s' ∧ I s' ps')
    (hs : I s ps) (h : (xs.map kind).foldlM nest ps = some ps') : ∃ s', xs.foldlM f s = .ok s' ∧ I s' ps' := by
  induction xs generalizing s ps with
  | nil =>
    cases h
    exact ⟨s, rfl, hs⟩
  | cons x xs ih =>
    rw [List.map_cons, List.foldlM_cons, Option.bind_eq_bind, Option.bind_eq_some_iff] at h
    obtain ⟨ps1, hnest, h⟩ := h
    obtain ⟨s1, hs1, hkept⟩ := hstep x List.mem_cons_self s ps ps1 hs hnest
    obtain ⟨s', hs', hkept'⟩ := ih (fun y hy => hstep y (List.mem_cons_of_mem _ hy)) hkept h
    exact ⟨s', by rw [List.foldlM_cons, hs1, ok_bind, hs'], hkept'⟩

end Nest

section Links
variable {value : Text}

/-- A normalized address has no host that `urlparse` refuses. -/
theorem exists_safeLink (checks : NetlocChecks) (h : IsHref value) : ∃ allowed, safeLink checks value = .ok allowed := by
  have hscheme : ∃ scheme, urlparseScheme checks value = .ok scheme := by
    unfold urlparseScheme
    dsimp only
    generalize hurl : (value.dropWhile fun c => c.toNat ≤ 0x20).filter (fun c => c ≠ '\t' ∧ c ≠ '\r' ∧ c ≠ '\n') = url
    have hmem : ∀ c ∈ (if hasScheme url then after ':' url else url), c ∈ value := by
      intro c hc
      have hc' : c ∈ url := by
        split at hc
        · exact mem_of_mem_after hc
        · exact hc
      rw [← hurl] at hc'
      exact (List.dropWhile_sublist _).subset (List.mem_of_mem_filter hc')
    generalize (if hasScheme url then after ':' url else url) = rest at hmem
    split
    · have hnetloc : ∀ c ∈ (rest.drop 2).takeWhile (fun c => c ≠ '/' ∧ c ≠ '?' ∧ c ≠ '#'), c.toNat < 0x80 ∧ c ≠ '[' ∧ c ≠ ']' :=
        fun c hc => h c (hmem c (List.mem_of_mem_drop ((List.takeWhile_sublist _).subset hc)))
      generalize (rest.drop 2).takeWhile (fun c => c ≠ '/' ∧ c ≠ '?' ∧ c ≠ '#') = netloc at hnetloc
      have hleft : '[' ∉ netloc := fun hc => (hnetloc _ hc).2.1 rfl
      have hright : ']' ∉ netloc := fun hc => (hnetloc _ hc).2.2 rfl
      rw [raiseIf_of_not (by simp [hleft, hright]), ok_bind, raiseIf_of_not (by simp [hleft]), ok_bind, raiseIf_of_not, ok_bind]
      · exact ⟨_, rfl⟩
      · rintro ⟨hany, -⟩
        obtain ⟨c, hc, hlarge⟩ := List.any_eq_true.mp hany
        exact absurd (of_decide_eq_true hlarge) (Nat.not_le.mpr (hnetloc c hc).1)
    · exact ⟨_, rfl⟩
  obtain ⟨scheme, hscheme⟩ := hscheme
  exact ⟨_, by rw [safeLink, hscheme, ok_bind]⟩

end Links

section Tags
variable {a : List Text}

theorem markup_open (tag : String) (h : IsName tag.toList) : Markup a ('<' :: tag.toList ++ ['>']) (tag.toList :: a) [] :=
  markup_starttag (isStarttag_plain h)

theorem markup_close (tag : String) (h : IsName tag.toList) : Markup (tag.toList :: a) ('<' :: '/' :: tag.toList ++ ['>']) a [] :=
  markup_endtag h

theorem markup_link (href : Text) : Markup a ("<a href=\"".toList ++ escape true href ++ "\">".toList) ("a".toList :: a) [] := by
  have hstart : IsStarttag "a".toList
      ('<' :: "a".toList ++ (' ' :: "href".toList ++ "=\"".toList ++ escape true href ++ ['\x22']) ++ ['>']) :=
    ⟨by decide, _, rfl, Or.inr ⟨_, _, by decide, rfl⟩⟩
  have heq : "<a href=\"".toList ++ escape true href ++ "\">".toList =
      '<' :: "a".toList ++ (' ' :: "href".toList ++ "=\"".toList ++ escape true href ++ ['\x22']) ++ ['>'] := by simp
  rw [heq]
  exact markup_starttag hstart

theorem markup_code (language : Text) :
    Markup a ("<code".toList ++ (if language = [] then [] else " class=\"language-".toList ++ escape true language ++ "\"".toList) ++
      ">".toList) ("code".toList :: a) [] := by
  split
  · exact markup_open "code" (by decide)
  · have hvalue : escape true ("language-".toList ++ language) = "language-".toList ++ escape true language := by
      rw [escape_append]
      exact congrArg (· ++ _) (by decide)
    have hstart : IsStarttag "code".toList
        ('<' :: "code".toList ++ (' ' :: "class".toList ++ "=\"".toList ++ escape true ("language-".toList ++ language) ++ ['\x22']) ++
          ['>']) := ⟨by decide, _, rfl, Or.inr ⟨_, _, by decide, rfl⟩⟩
    have heq : "<code".toList ++ (" class=\"language-".toList ++ escape true language ++ "\"".toList) ++ ">".toList =
        '<' :: "code".toList ++ (' ' :: "class".toList ++ "=\"".toList ++ escape true ("language-".toList ++ language) ++ ['\x22']) ++
          ['>'] := by
      rw [hvalue]
      simp
    rw [heq]
    exact markup_starttag hstart

end Tags

def inlineTags : List Paired → List Bool → List Text
  | .strong :: ps, linkStack => "b".toList :: inlineTags ps linkStack
  | .em :: ps, linkStack => "i".toList :: inlineTags ps linkStack
  | .s :: ps, linkStack => "s".toList :: inlineTags ps linkStack
  | .link :: ps, allowed :: linkStack => if allowed then "a".toList :: inlineTags ps linkStack else inlineTags ps linkStack
  | _ :: ps, linkStack => inlineTags ps linkStack
  | [], _ => []

/-- The state agrees with the open tokens, inside the tags `a`. -/
structure InlineInv (a : List Text) (st : InlineState) (ps : List Paired) : Prop where
  links : st.linkStack.length = ps.count .link
  markup : ∃ text, Markup a st.output (inlineTags ps st.linkStack ++ a) text

section Inline
variable {checks : NetlocChecks} {a : List Text} {st : InlineState} {ps ps' : List Paired} {p : Paired} {t text : Text}
  {token : Token} {tokens : List Token}

theorem InlineInv.append (h : InlineInv a st ps) (hlinks : ps'.count .link = ps.count .link)
    (ht : Markup (inlineTags ps st.linkStack ++ a) t (inlineTags ps' st.linkStack ++ a) text) : InlineInv a (st.append t) ps' := by
  obtain ⟨text', hmarkup⟩ := h.markup
  exact ⟨h.links.trans hlinks.symm, _, hmarkup.trans ht⟩

theorem InlineInv.opening (hhref : ∀ href ∈ token.href, IsHref href) (hkind : token.kind = .opening p) (h : InlineInv a st ps) :
    ∃ st', renderInlineToken checks st token = .ok st' ∧ InlineInv a st' (p :: ps) := by
  unfold renderInlineToken
  rw [hkind]
  cases p with
  | strong => exact ⟨_, rfl, h.append (List.count_cons_of_ne (by decide)) (markup_open "b" (by decide))⟩
  | em => exact ⟨_, rfl, h.append (List.count_cons_of_ne (by decide)) (markup_open "i" (by decide))⟩
  | s => exact ⟨_, rfl, h.append (List.count_cons_of_ne (by decide)) (markup_open "s" (by decide))⟩
  | link =>
    have hnormal : IsHref (token.href.getD []) := by
      cases hvalue : token.href with
      | none => exact fun c hc => absurd hc List.not_mem_nil
      | some href => exact hhref href hvalue
    obtain ⟨allowed, hallowed⟩ := exists_safeLink checks hnormal
    obtain ⟨text, hmarkup⟩ := h.markup
    have hlinks : (allowed :: st.linkStack).length = (Paired.link :: ps).count .link := by
      rw [List.count_cons_self, List.length_cons, h.links]
    dsimp only
    rw [hallowed, ok_bind]
    refine ⟨_, rfl, ?_⟩
    cases allowed with
    | true => exact ⟨hlinks, _, hmarkup.trans (markup_link _)⟩
    | false => exact ⟨hlinks, text, hmarkup⟩
  | _ => exact ⟨_, rfl, h.links, h.markup⟩

theorem InlineInv.closing (hkind : token.kind = .closing p) (h : InlineInv a st (p :: ps)) :
    ∃ st', renderInlineToken checks st token = .ok st' ∧ InlineInv a st' ps := by
  unfold renderInlineToken
  rw [hkind]
  cases p with
  | strong => exact ⟨_, rfl, h.append (List.count_cons_of_ne (by decide)).symm (markup_close "b" (by decide))⟩
  | em => exact ⟨_, rfl, h.append (List.count_cons_of_ne (by decide)).symm (markup_close "i" (by decide))⟩
  | s => exact ⟨_, rfl, h.append (List.count_cons_of_ne (by decide)).symm (markup_close "s" (by decide))⟩
  | link =>
    obtain ⟨hlinks, text, hmarkup⟩ := h
    rw [List.count_cons_self] at hlinks
    dsimp only
    cases hstack : st.linkStack with
    | nil =>
      rw [hstack] at hlinks
      cases hlinks
    | cons allowed linkStack =>
      rw [hstack] at hlinks hmarkup
      have hcount : linkStack.length = ps.count .link := Nat.succ.inj hlinks
      refine ⟨_, rfl, ?_⟩
      cases allowed with
      | true => exact ⟨hcount, _, hmarkup.trans (markup_close "a" (by decide))⟩
      | false => exact ⟨hcount, text, hmarkup⟩
  | _ => exact ⟨_, rfl, h.links, h.markup⟩

theorem InlineInv.step (hhref : ∀ href ∈ token.href, IsHref href) (h : InlineInv a st ps)
    (hnest : nest ps token.kind = some ps') : ∃ st', renderInlineToken checks st token = .ok st' ∧ InlineInv a st' ps' := by
  have hnewline : InlineInv a (st.append ['\n']) ps := h.append rfl (markup_plain (by decide))
  have hescaped : InlineInv a (st.append (escape false token.content)) ps := h.append rfl (markup_escape _)
  have hcode : InlineInv a (st.append ("<code>".toList ++ escape false token.content ++ "</code>".toList)) ps :=
    h.append rfl (((markup_open "code" (by decide)).trans (markup_escape _)).trans (markup_close "code" (by decide)))
  cases hkind : token.kind with
  | opening p =>
    rw [hkind] at hnest
    cases hnest
    exact h.opening hhref hkind
  | closing p =>
    rw [hkind] at hnest
    rw [nest_closing hnest] at h
    exact h.closing hkind
  | _ =>
    rw [hkind] at hnest
    cases hnest
    rw [renderInlineToken, hkind]
    first
    | exact ⟨_, rfl, h⟩
    | exact ⟨_, rfl, hescaped⟩
    | exact ⟨_, rfl, hcode⟩
    | exact ⟨_, rfl, hnewline⟩

theorem exists_renderInline (hbalanced : Balanced (tokens.map (·.kind)))
    (hhrefs : ∀ token ∈ tokens, ∀ href ∈ token.href, IsHref href) :
    ∃ t text, renderInline checks tokens = .ok t ∧ Markup a t a text := by
  obtain ⟨st, hst, h⟩ := foldlM_nest (f := renderInlineToken checks) (I := InlineInv a) (s := {})
    (fun token htoken st ps ps' h hnest => h.step (hhrefs token htoken) hnest) ⟨rfl, [], .nil⟩ hbalanced
  obtain ⟨text, hmarkup⟩ := h.markup
  exact ⟨st.output, text, by rw [renderInline, hst]; rfl, hmarkup⟩

end Inline

def isList (p : Paired) : Bool := p = .bulletList || p = .orderedList

def tagsOf : Paired → List Text
  | .heading => ["b".toList]
  | .blockquote => ["blockquote".toList]
  | _ => []

structure HtmlInv (st : HtmlState) (ps : List Paired) : Prop where
  lists : st.lists.length = ps.countP isList
  markup : ∃ text, Markup [] st.output (ps.flatMap tagsOf) text

section Blocks
variable {checks : NetlocChecks} {st : HtmlState} {ps ps' : List Paired} {p : Paired} {t text : Text} {token : Block}
  {tokens : List Block}

theorem HtmlInv.append (h : HtmlInv st ps) (hlists : ps'.countP isList = ps.countP isList)
    (ht : Markup (ps.flatMap tagsOf) t (ps'.flatMap tagsOf) text) : HtmlInv (st.append t) ps' := by
  obtain ⟨text', hmarkup⟩ := h.markup
  exact ⟨h.lists.trans hlists.symm, _, hmarkup.trans ht⟩

theorem escape_toDigits (n : Nat) : escape false (Nat.toDigits 10 n) = Nat.toDigits 10 n := by
  have hall : ∀ t : Text, (∀ c ∈ t, c.isDigit = true) → escape false t = t := by
    intro t ht
    induction t with
    | nil => rfl
    | cons c t ih =>
      rw [escape_cons, ih fun d hd => ht d (List.mem_cons_of_mem _ hd)]
      rcases escapeChar_cases false c with ⟨hsame, -⟩ | ⟨name, hmem, -⟩
      · rw [hsame]
        rfl
      · have hreferences : ∀ r ∈ references, r.2.isDigit = false := by decide
        have hc := ht c List.mem_cons_self
        rw [hreferences _ hmem] at hc
        cases hc
  exact hall _ fun c hc => Nat.isDigit_of_mem_toDigits (by decide) (by decide) hc

theorem escape_indent (n : Nat) : escape false (List.replicate n ' ') = List.replicate n ' ' := by
  induction n with
  | zero => rfl
  | succ n ih =>
    rw [List.replicate_succ, escape_cons, ih]
    rfl

theorem HtmlInv.openItem (h : HtmlInv st ps) : HtmlInv (openItem st) (.listItem :: ps) := by
  have hlists : (Paired.listItem :: ps).countP isList = ps.countP isList := List.countP_cons_of_neg (by decide)
  unfold Vuzol.Formatting.openItem
  dsimp only
  split
  · rename_i number lists heq
    obtain ⟨text, hmarkup⟩ := h.markup
    refine ⟨?_, _, hmarkup.trans (markup_plain ?_)⟩
    · have hlength := h.lists
      rw [heq] at hlength
      exact hlength.trans hlists.symm
    · have hdot : escape false ". ".toList = ". ".toList := by decide
      rw [escape_append, escape_append, escape_indent, escape_toDigits, hdot]
  · have hbullet : escape false "• ".toList = "• ".toList := by decide
    refine h.append hlists (markup_plain ?_)
    rw [escape_append, escape_indent, hbullet]

theorem HtmlInv.opening (hkind : token.kind = .opening p) (h : HtmlInv st ps) :
    ∃ st', renderBlock checks st token = .ok st' ∧ HtmlInv st' (p :: ps) := by
  unfold renderBlock
  rw [hkind]
  cases p with
  | heading => exact ⟨_, rfl, h.append (List.countP_cons_of_neg (by decide)) (markup_open "b" (by decide))⟩
  | blockquote => exact ⟨_, rfl, h.append (List.countP_cons_of_neg (by decide)) (markup_open "blockquote" (by decide))⟩
  | listItem => exact ⟨_, rfl, h.openItem⟩
  | bulletList =>
    refine ⟨_, rfl, ?_, h.markup⟩
    rw [List.countP_cons_of_pos (by decide), ← h.lists]
    rfl
  | orderedList =>
    refine ⟨_, rfl, ?_, h.markup⟩
    rw [List.countP_cons_of_pos (by decide), ← h.lists]
    rfl
  | _ => exact ⟨_, rfl, h.lists.trans (List.countP_cons_of_neg (by decide)).symm, h.markup⟩

theorem HtmlInv.closing (hkind : token.kind = .closing p) (h : HtmlInv st (p :: ps)) :
    ∃ st', renderBlock checks st token = .ok st' ∧ HtmlInv st' ps := by
  have hnewline : ∀ {a : List Text}, Markup a ['\n'] a ['\n'] := markup_plain (by decide)
  -- The list that ends is on the stack.
  have hlist : isList p = true → tagsOf p = [] → ∃ entry lists, st.lists = entry :: lists ∧
      HtmlInv ({ st with lists := lists }.append ['\n']) ps := by
    intro hp htags
    obtain ⟨hlength, text, hmarkup⟩ := h
    rw [List.countP_cons_of_pos hp] at hlength
    rw [List.flatMap_cons, htags, List.nil_append] at hmarkup
    cases hlists : st.lists with
    | nil =>
      rw [hlists] at hlength
      cases hlength
    | cons entry lists =>
      rw [hlists] at hlength
      exact ⟨entry, lists, rfl, Nat.succ.inj hlength, _, hmarkup.trans hnewline⟩
  unfold renderBlock
  rw [hkind]
  cases p with
  | heading => exact ⟨_, rfl, h.append (List.countP_cons_of_neg (by decide)).symm ((markup_close "b" (by decide)).trans hnewline)⟩
  | blockquote =>
    exact ⟨_, rfl, h.append (List.countP_cons_of_neg (by decide)).symm ((markup_close "blockquote" (by decide)).trans hnewline)⟩
  | listItem => exact ⟨_, rfl, h.append (List.countP_cons_of_neg (by decide)).symm hnewline⟩
  | bulletList =>
    obtain ⟨entry, lists, hlists, hinv⟩ := hlist rfl rfl
    exact ⟨_, by simp only [hlists], hinv⟩
  | orderedList =>
    obtain ⟨entry, lists, hlists, hinv⟩ := hlist rfl rfl
    exact ⟨_, by simp only [hlists], hinv⟩
  | paragraph =>
    refine ⟨_, rfl, ?_⟩
    split
    · exact ⟨h.lists.trans (List.countP_cons_of_neg (by decide)), h.markup⟩
    · exact h.append (List.countP_cons_of_neg (by decide)).symm (markup_plain (by decide))
  | _ => exact ⟨_, rfl, h.lists.trans (List.countP_cons_of_neg (by decide)), h.markup⟩

theorem HtmlInv.step (hbalanced : Balanced (token.children.map (·.kind)))
    (hhrefs : ∀ child ∈ token.children, ∀ href ∈ child.href, IsHref href) (h : HtmlInv st ps)
    (hnest : nest ps token.kind = some ps') : ∃ st', renderBlock checks st token = .ok st' ∧ HtmlInv st' ps' := by
  have hcode : HtmlInv (st.append ("<pre><code".toList ++
      (if languageOf token.info = [] then [] else " class=\"language-".toList ++ escape true (languageOf token.info) ++ "\"".toList) ++
      ">".toList ++ escape false token.content ++ "</code></pre>\n".toList)) ps := by
    have hopens : "<pre><code".toList = "<pre>".toList ++ "<code".toList := by decide
    have hcloses : "</code></pre>\n".toList = "</code>".toList ++ ("</pre>".toList ++ ['\n']) := by decide
    have hpre : Markup (ps.flatMap tagsOf) "<pre>".toList ("pre".toList :: ps.flatMap tagsOf) [] := markup_open "pre" (by decide)
    have hend : Markup ("code".toList :: "pre".toList :: ps.flatMap tagsOf) ("</code>".toList ++ ("</pre>".toList ++ ['\n']))
        (ps.flatMap tagsOf) ['\n'] :=
      (markup_close "code" (by decide)).trans ((markup_close "pre" (by decide)).trans (markup_plain (by decide)))
    have hmarkup := hpre.trans ((markup_code (languageOf token.info)).trans ((markup_escape token.content).trans hend))
    rw [hopens, hcloses]
    simp only [List.append_assoc] at hmarkup ⊢
    exact h.append rfl hmarkup
  cases hkind : token.kind with
  | opening p =>
    rw [hkind] at hnest
    cases hnest
    exact h.opening hkind
  | closing p =>
    rw [hkind] at hnest
    rw [nest_closing hnest] at h
    exact h.closing hkind
  | inline =>
    rw [hkind] at hnest
    cases hnest
    have hinline : ∃ t text, renderInline checks token.children = .ok t ∧ Markup (ps.flatMap tagsOf) t (ps.flatMap tagsOf) text :=
      exists_renderInline hbalanced hhrefs
    obtain ⟨t, text, ht, hmarkup⟩ := hinline
    rw [renderBlock, hkind]
    dsimp only
    rw [ht]
    exact ⟨_, rfl, h.append rfl hmarkup⟩
  | hr =>
    rw [hkind] at hnest
    cases hnest
    rw [renderBlock, hkind]
    exact ⟨_, rfl, h.append rfl (markup_plain (by decide))⟩
  | htmlBlock =>
    rw [hkind] at hnest
    cases hnest
    rw [renderBlock, hkind]
    exact ⟨_, rfl, h.append rfl (markup_escape _)⟩
  | _ =>
    rw [hkind] at hnest
    cases hnest
    rw [renderBlock, hkind]
    first
    | exact ⟨_, rfl, h⟩
    | exact ⟨_, rfl, hcode⟩

theorem exists_telegramMarkdownHtml (checks : NetlocChecks) (h : Parsed tokens) :
    ∃ html, telegramMarkdownHtml checks tokens = .ok html ∧ WellFormed html := by
  obtain ⟨st, hst, hinv⟩ := foldlM_nest (f := renderBlock checks) (I := HtmlInv) (s := {})
    (fun token htoken st ps ps' hinv hnest => hinv.step (h.children token htoken) (h.hrefs token htoken) hnest)
    ⟨rfl, [], .nil⟩ h.balanced
  obtain ⟨text, hmarkup⟩ := hinv.markup
  exact ⟨strip st.output, by rw [telegramMarkdownHtml, hst]; rfl, WellFormed.strip ⟨text, hmarkup⟩⟩

end Blocks

end Vuzol.Formatting
