import Vuzol.Theorems.Telegram.Rendering

/-! Splitting a message loses nothing and leaves every part well formed. -/

namespace Vuzol.Formatting

open Vuzol.Lib Vuzol.Lib.Html

/-- A part of at most `limit` units, beside the escaped text of its HTML. -/
def IsPart (limit : Nat) (p : Text × Text) : Prop :=
  ∃ text, Markup [] p.1 [] text ∧ p.2 = escape true text ∧ utf16 text ≤ limit

def textOf (parts : List (Text × Text)) : Text := (parts.map fun p => unescape p.2).flatten

structure Inv (limit : Nat) (s : Splitter) (text : Text) : Prop where
  tags : ∀ t ∈ s.tags, IsStarttag t.1 t.2
  markup : Markup [] s.markup (s.tags.map Prod.fst) s.plain
  units : s.units = utf16 s.plain
  units_le : s.units ≤ limit
  parts : ∀ p ∈ s.parts, IsPart limit p
  text : textOf s.parts ++ s.plain = text

section Units
variable {available : Nat} {s t data : Text}

theorem utf16_append (s t : Text) : utf16 (s ++ t) = utf16 s + utf16 t := by
  rw [utf16, List.map_append, List.sum_append]
  rfl

theorem utf16_take_fitting (available : Nat) (data : Text) : utf16 (data.take (fitting available data)) ≤ available := by
  induction data generalizing available with
  | nil => exact Nat.zero_le _
  | cons c t ih =>
    rw [fitting]
    split
    · exact Nat.zero_le _
    · rename_i hwidth
      have hrest := ih (available - width c)
      rw [List.take_succ_cons]
      show width c + utf16 (t.take _) ≤ available
      omega

theorem utf16_take_le {n m : Nat} (h : n ≤ m) (t : Text) : utf16 (t.take n) ≤ utf16 (t.take m) := by
  have hjoin : t.take m = t.take n ++ (t.take m).drop n := by
    have hsplit := (List.take_append_drop n (t.take m)).symm
    rwa [List.take_take, Nat.min_eq_left h] at hsplit
  rw [hjoin, utf16_append]
  exact Nat.le_add_right _ _

theorem utf16_take_taken (available : Nat) (data : Text) : utf16 (data.take (taken available data)) ≤ available :=
  (utf16_take_le (taken_bounds available data).1 data).trans (utf16_take_fitting available data)

end Units

section Flush
variable {limit : Nat} {s : Splitter} {text t : Text} {tags : List (Text × Text)}

theorem markup_closingTags (h : ∀ t ∈ tags, IsStarttag t.1 t.2) : Markup (tags.map Prod.fst) (closingTags tags) [] [] := by
  induction tags with
  | nil => exact .nil
  | cons t tags ih =>
    rw [List.map_cons, closingTags, List.flatMap_cons]
    exact .endtag (h t List.mem_cons_self).1 (ih fun u hu => h u (List.mem_cons_of_mem _ hu))

theorem markup_openingTags (h : ∀ t ∈ tags, IsStarttag t.1 t.2) : Markup [] (openingTags tags) (tags.map Prod.fst) [] := by
  induction tags with
  | nil => exact .nil
  | cons t tags ih =>
    rw [List.map_cons, openingTags, List.reverse_cons, List.flatMap_append, List.flatMap_singleton]
    exact (ih fun u hu => h u (List.mem_cons_of_mem _ hu)).trans (markup_starttag (h t List.mem_cons_self))

theorem textOf_append_singleton (parts : List (Text × Text)) (p : Text × Text) :
    textOf (parts ++ [p]) = textOf parts ++ unescape p.2 := by
  rw [textOf, List.map_append, List.flatten_append, List.map_singleton, List.flatten_singleton]
  rfl

theorem Inv.flush (h : Inv limit s text) : Inv limit s.flush text := by
  unfold Splitter.flush
  split
  · exact h
  · have hpart : IsPart limit (s.markup ++ closingTags s.tags, escape true s.plain) := by
      refine ⟨s.plain, ?_, rfl, h.units ▸ h.units_le⟩
      have hmarkup := h.markup.trans (markup_closingTags h.tags)
      rwa [List.append_nil] at hmarkup
    exact
      { tags := h.tags
        markup := markup_openingTags h.tags
        units := rfl
        units_le := Nat.zero_le _
        parts := fun p hp => (List.mem_append.mp hp).elim (h.parts p) fun hp => by
          rw [List.mem_singleton.mp hp]
          exact hpart
        text := by
          rw [List.append_nil, textOf_append_singleton, unescape_escape]
          exact h.text }

theorem flush_units (s : Splitter) : s.flush.units = 0 := by
  unfold Splitter.flush
  split
  · assumption
  · rfl

theorem Inv.append (h : Inv limit s text) (hfit : s.units + utf16 t ≤ limit) : Inv limit (s.append t) (text ++ t) where
  tags := h.tags
  markup := h.markup.trans (markup_escape t)
  units := by
    show s.units + utf16 t = utf16 (s.plain ++ t)
    rw [utf16_append, h.units]
  units_le := hfit
  parts := h.parts
  text := by
    show textOf s.parts ++ (s.plain ++ t) = text ++ t
    rw [← List.append_assoc, h.text]

@[simp] theorem flush_tags (s : Splitter) : s.flush.tags = s.tags := by
  unfold Splitter.flush
  split <;> rfl

theorem advance_tags (s : Splitter) (data : Text) (count : Nat) : (s.advance data count).tags = s.tags := by
  unfold Splitter.advance
  split
  · rfl
  · exact flush_tags _

theorem Inv.advance {data : Text} (h : Inv limit s text) :
    Inv limit (s.advance data (taken (limit - s.units) data)) (text ++ data.take (taken (limit - s.units) data)) := by
  have htake := utf16_take_taken (limit - s.units) data
  have hunits := h.units_le
  have happended := h.append (by omega : s.units + utf16 (data.take (taken (limit - s.units) data)) ≤ limit)
  unfold Splitter.advance
  split
  · exact happended
  · exact happended.flush

end Flush

section Handlers
variable {limit : Nat} {s : Splitter} {text text' name tag opening : Text} {c : Char} {a b : List Text}
  {es : List Event}

theorem Inv.handleData (hlimit : 2 ≤ limit) (h : Inv limit s text) (data : Text) :
    Inv limit (handleData hlimit s data) (text ++ data) ∧ (handleData hlimit s data).tags = s.tags := by
  induction s, data using handleData.induct hlimit generalizing text with
  | case1 s =>
    rw [Vuzol.Formatting.handleData, if_pos rfl, List.append_nil]
    exact ⟨h, rfl⟩
  | case2 s data hdata hfit ih =>
    obtain ⟨hinv, htags⟩ := ih h.flush
    rw [Vuzol.Formatting.handleData, if_neg hdata, if_pos hfit]
    exact ⟨hinv, htags.trans (flush_tags s)⟩
  | case3 s data hdata hfit ih =>
    obtain ⟨hinv, htags⟩ := ih h.advance
    rw [List.append_assoc, List.take_append_drop] at hinv
    rw [Vuzol.Formatting.handleData, if_neg hdata, if_neg hfit]
    exact ⟨hinv, htags.trans (advance_tags s data _)⟩

theorem Inv.entity (h : Inv limit s text) (hlimit : 2 ≤ limit) (hknown : (name, c) ∈ references)
    (hescaped : escapeChar false c = '&' :: name ++ [';']) :
    Inv limit (entity limit s ('&' :: name ++ [';'])) (text ++ [c]) ∧ (entity limit s ('&' :: name ++ [';'])).tags = s.tags := by
  have hdecoded : unescape ('&' :: name ++ [';']) = [c] := by
    have hall := unescapeFrom_reference (t := []) hknown
    rwa [List.append_nil] at hall
  have hwidth : utf16 [c] ≤ 2 := by
    show width c + 0 ≤ 2
    exact width_le c
  have happend : ∀ s', Inv limit s' text → s'.units + utf16 [c] ≤ limit →
      Inv limit { s' with markup := s'.markup ++ ('&' :: name ++ [';']), plain := s'.plain ++ [c], units := s'.units + utf16 [c] }
        (text ++ [c]) := by
    intro s' h' hfit
    have happended := h'.append hfit
    rw [Splitter.append, escape_cons, escape_nil, List.append_nil, hescaped] at happended
    exact happended
  unfold Vuzol.Formatting.entity
  dsimp only
  rw [hdecoded]
  split
  · refine ⟨happend _ h.flush ?_, flush_tags s⟩
    rw [flush_units]
    omega
  · exact ⟨happend s h (by omega), rfl⟩

theorem Inv.run (hlimit : 2 ≤ limit) (hevents : Nested a es b text') (h : Inv limit s text) (ha : s.tags.map Prod.fst = a) :
    ∃ s', es.foldlM (handle hlimit) s = .ok s' ∧ Inv limit s' (text ++ text') ∧ s'.tags.map Prod.fst = b := by
  induction hevents generalizing s text with
  | nil => exact ⟨s, rfl, by rwa [List.append_nil], ha⟩
  | data d _ rest ih =>
    obtain ⟨hinv, htags⟩ := h.handleData hlimit d
    obtain ⟨s', hs', hinv', hb⟩ := ih hinv (htags ▸ ha)
    rw [List.append_assoc] at hinv'
    exact ⟨s', by rw [List.foldlM_cons]; exact hs', hinv', hb⟩
  | reference known escaped rest ih =>
    obtain ⟨hinv, htags⟩ := h.entity hlimit known escaped
    obtain ⟨s', hs', hinv', hb⟩ := ih hinv (htags ▸ ha)
    rw [List.append_assoc] at hinv'
    exact ⟨s', by rw [List.foldlM_cons]; exact hs', hinv', hb⟩
  | @starttag tag opening _ _ _ _ start rest ih =>
    have hopened : Inv limit { s with tags := (tag, opening) :: s.tags, markup := s.markup ++ opening } text :=
      { tags := List.forall_mem_cons.mpr ⟨start, h.tags⟩
        markup := by
          have hmarkup := h.markup.trans (markup_starttag start)
          rwa [List.append_nil] at hmarkup
        units := h.units
        units_le := h.units_le
        parts := h.parts
        text := h.text }
    obtain ⟨s', hs', hinv', hb⟩ := ih hopened (congrArg (tag :: ·) ha)
    exact ⟨s', by rw [List.foldlM_cons]; exact hs', hinv', hb⟩
  | @endtag tag a _ _ _ name rest ih =>
    obtain ⟨⟨top, opening⟩, tags, htags, rfl, hrest⟩ := List.map_eq_cons_iff.mp ha
    have hclosed : Inv limit { s with tags := tags, markup := s.markup ++ ('<' :: '/' :: top ++ ['>']) } text :=
      { tags := fun t ht => h.tags t (htags ▸ List.mem_cons_of_mem _ ht)
        markup := by
          have hmarkup := h.markup
          rw [htags] at hmarkup
          have hjoined := hmarkup.trans (markup_endtag name)
          rwa [List.append_nil] at hjoined
        units := h.units
        units_le := h.units_le
        parts := h.parts
        text := h.text }
    have hhandled : handle hlimit s (.endtag top) =
        .ok { s with tags := tags, markup := s.markup ++ ('<' :: '/' :: top ++ ['>']) } := by
      rw [handle, htags]
      exact if_pos rfl
    obtain ⟨s', hs', hinv', hb⟩ := ih hclosed hrest
    exact ⟨s', by rw [List.foldlM_cons, hhandled, ok_bind, hs'], hinv', hb⟩

end Handlers

section Parts
variable {limit : Nat} {s : Splitter} {text html : Text} {parts : List (Text × Text)}

theorem inv_init (limit : Nat) : Inv limit {} [] where
  tags := fun _ h => absurd h List.not_mem_nil
  markup := .nil
  units := rfl
  units_le := Nat.zero_le _
  parts := fun _ h => absurd h List.not_mem_nil
  text := rfl

theorem Inv.finish (h : Inv limit s text) (htags : s.tags = []) :
    ∃ parts, s.finish = .ok parts ∧ (∀ p ∈ parts, IsPart limit p) ∧ textOf parts = text := by
  have hflush := h.flush
  have hplain : s.flush.plain = [] := by
    have hunits := hflush.units
    rw [flush_units] at hunits
    cases hrest : s.flush.plain with
    | nil => rfl
    | cons c t =>
      have hc := width_pos c
      rw [hrest] at hunits
      change 0 = width c + utf16 t at hunits
      omega
  have htext := hflush.text
  rw [hplain, List.append_nil] at htext
  rw [Splitter.finish, if_pos htags]
  by_cases hparts : s.flush.parts = []
  · rw [if_pos hparts]
    refine ⟨_, rfl, fun p hp => ?_, ?_⟩
    · rw [List.mem_singleton.mp hp]
      exact ⟨[], .nil, rfl, Nat.zero_le _⟩
    · rw [← htext, hparts]
      rfl
  · rw [if_neg hparts]
    exact ⟨_, rfl, hflush.parts, htext⟩

theorem IsPart.unescape_eq {p : Text × Text} (h : IsPart limit p) : unescape p.2 = textContent p.1 := by
  obtain ⟨text, hmarkup, hplain, -⟩ := h
  rw [hplain, unescape_escape, hmarkup.textContent_eq]

end Parts

/-- Splitting ends, and loses nothing: the plain parts and the HTML parts both have the text of the rendered HTML. Every part
    is well formed and within the limit. -/
theorem telegram_parts_lossless (checks : NetlocChecks) (parse : Text → List Block)
    (hparse : ∀ markdown, Parsed (parse markdown)) (markdown : Text) (limit : Nat) (hlimit : 2 ≤ limit) :
    ∃ html parts, telegramMarkdownHtml checks (parse markdown) = .ok html ∧
      telegramMarkdownParts checks (parse markdown) limit = .ok parts ∧
      (parts.map fun p => unescape p.2).flatten = textContent html ∧
      (parts.map fun p => textContent p.1).flatten = textContent html ∧
      ∀ p ∈ parts, WellFormed p.1 ∧ unescape p.2 = textContent p.1 ∧ utf16 (textContent p.1) ≤ limit := by
  obtain ⟨html, hhtml, text, hmarkup⟩ := exists_telegramMarkdownHtml checks (hparse markdown)
  obtain ⟨s, hs, hinv, htags⟩ := Inv.run hlimit hmarkup.nested (inv_init limit) rfl
  obtain ⟨parts, hfinish, hparts, htext⟩ := hinv.finish (List.map_eq_nil_iff.mp htags)
  rw [List.nil_append, ← hmarkup.textContent_eq] at htext
  refine ⟨html, parts, hhtml, ?_, htext, ?_, fun p hp => ?_⟩
  · rw [telegramMarkdownParts, dif_pos hlimit, hhtml, ok_bind, hs, ok_bind, hfinish]
  · rw [← htext, textOf]
    exact congrArg List.flatten (List.map_congr_left fun p hp => (hparts p hp).unescape_eq.symm)
  · obtain ⟨text', hmarkup', hplain, hle⟩ := hparts p hp
    exact ⟨⟨text', hmarkup'⟩, (hparts p hp).unescape_eq, by rwa [hmarkup'.textContent_eq]⟩

/-- The tokens of `**ab** c`. -/
def strongTokens : List Block :=
  [{ kind := .opening .paragraph },
    { kind := .inline
      children := [{ kind := .text }, { kind := .opening .strong }, { kind := .text, content := "ab".toList },
        { kind := .closing .strong }, { kind := .text, content := " c".toList }] },
    { kind := .closing .paragraph }]

theorem telegram_parts_lossless_strong : ∃ parts, telegramMarkdownParts ⟨fun _ => true, fun _ => true⟩ strongTokens 2 = .ok parts ∧
    (parts.map fun p => unescape p.2).flatten = "ab c".toList ∧ ∀ p ∈ parts, WellFormed p.1 ∧ utf16 (textContent p.1) ≤ 2 := by
  have hparsed : Parsed strongTokens :=
    { balanced := by decide
      children := by decide
      hrefs := by
        intro b hb token htoken href hhref
        have hnone : ∀ b ∈ strongTokens, ∀ token ∈ b.children, token.href = none := by decide
        rw [hnone b hb token htoken] at hhref
        cases hhref }
  obtain ⟨html, parts, hhtml, hparts, htext, -, hall⟩ := telegram_parts_lossless ⟨fun _ => true, fun _ => true⟩ (fun _ => strongTokens)
    (fun _ => hparsed) "**ab** c".toList 2 (by decide)
  have heq : html = "<b>ab</b> c".toList := by
    have hrendered : telegramMarkdownHtml ⟨fun _ => true, fun _ => true⟩ strongTokens = .ok "<b>ab</b> c".toList := by decide +kernel
    exact Except.ok.inj (hhtml.symm.trans hrendered)
  refine ⟨parts, hparts, ?_, fun p hp => ⟨(hall p hp).1, (hall p hp).2.2⟩⟩
  rw [htext, heq]
  decide +kernel

end Vuzol.Formatting
