import Vuzol.Lib.Url

/-! HTML of tags, text and references: Python's `html.escape` and `html.unescape`, what `HTMLParser` reports of it, and
    when its tags are nested. -/

namespace Vuzol.Lib.Html

/-- The names that `html.escape` writes; the last two stand for quotes. -/
def references : List (Text × Char) :=
  [("amp".toList, '&'), ("lt".toList, '<'), ("gt".toList, '>'), ("quot".toList, '\x22'), ("#x27".toList, '\x27')]

/-- `html.escape` of one character. -/
def escapeChar (quote : Bool) (c : Char) : Text :=
  match (if quote then references else references.take 3).find? fun r => r.2 = c with
  | some r => '&' :: r.1 ++ [';']
  | none => [c]

/-- `html.escape(text, quote=quote)`. -/
def escape (quote : Bool) (t : Text) : Text := t.flatMap (escapeChar quote)

/-- `html.unescape` of the references that `html.escape` writes; the next `skip` characters belong to one. -/
def unescapeFrom (skip : Nat) : Text → Text
  | [] => []
  | c :: t =>
    if 0 < skip then unescapeFrom (skip - 1) t
    else if c = '&' then
      match references.find? fun r => (r.1 ++ [';']).isPrefixOf t with
      | some r => r.2 :: unescapeFrom (r.1.length + 1) t
      | none => c :: unescapeFrom 0 t
    else c :: unescapeFrom 0 t

def unescape (t : Text) : Text := unescapeFrom 0 t

def width (c : Char) : Nat := if 0xFFFF < c.toNat then 2 else 1

/-- `len(text.encode("utf-16-le")) // 2`. -/
def utf16 (t : Text) : Nat := (t.map width).sum

/-- A call of a handler. A reference is one of `handle_entityref`, or of `handle_charref` when its name begins with `#`. -/
inductive Event where
  | starttag (tag opening : Text)
  | endtag (tag : Text)
  | data (data : Text)
  | reference (name : Text)

/-- What stands between `<` and `>`. -/
def tagEvent : Text → Event
  | '/' :: tag => .endtag tag
  | body => .starttag (body.takeWhile (· ≠ ' ')) ('<' :: body ++ ['>'])

def consData (c : Char) : List Event → List Event
  | .data d :: es => .data (c :: d) :: es
  | es => .data [c] :: es

def reportFrom (skip : Nat) : Text → List Event
  | [] => []
  | c :: t =>
    if 0 < skip then reportFrom (skip - 1) t
    else if c = '<' then tagEvent (t.takeWhile (· ≠ '>')) :: reportFrom ((t.takeWhile (· ≠ '>')).length + 1) t
    else if c = '&' then .reference (t.takeWhile (· ≠ ';')) :: reportFrom ((t.takeWhile (· ≠ ';')).length + 1) t
    else consData c (reportFrom 0 t)

/-- `feed` and `close`. -/
def report (html : Text) : List Event := reportFrom 0 html

def Event.text : Event → Text
  | .starttag _ _ | .endtag _ => []
  | .data d => d
  | .reference name => unescape ('&' :: name ++ [';'])

def textContent (html : Text) : Text := (report html).flatMap Event.text

def IsName (name : Text) : Prop := name ≠ [] ∧ name.all Char.isLower = true

instance (name : Text) : Decidable (IsName name) := inferInstanceAs (Decidable (_ ∧ _))

def IsStarttag (tag opening : Text) : Prop :=
  IsName tag ∧ ∃ attr, opening = '<' :: tag ++ attr ++ ['>'] ∧
    (attr = [] ∨ ∃ name value, IsName name ∧ attr = ' ' :: name ++ "=\"".toList ++ escape true value ++ ['\x22'])

/-- Whole tags and whole references take the open tags `tags`, the innermost first, to `tags'`; the text is `text`. -/
inductive Markup : List Text → Text → List Text → Text → Prop where
  | nil {tags} : Markup tags [] tags []
  | text {tags html tags' text} (c : Char) (rest : Markup tags html tags' text) :
    Markup tags (escapeChar false c ++ html) tags' (c :: text)
  | starttag {tag opening tags html tags' text} (start : IsStarttag tag opening) (rest : Markup (tag :: tags) html tags' text) :
    Markup tags (opening ++ html) tags' text
  | endtag {tag tags html tags' text} (name : IsName tag) (rest : Markup tags html tags' text) :
    Markup (tag :: tags) ('<' :: '/' :: tag ++ ['>'] ++ html) tags' text

def WellFormed (html : Text) : Prop := ∃ text, Markup [] html [] text

section Escape
variable {quote : Bool} {c : Char} {r : Text × Char} {s t : Text} {n : Nat}

@[simp] theorem escape_nil : escape quote [] = [] := rfl

@[simp] theorem escape_cons : escape quote (c :: t) = escapeChar quote c ++ escape quote t := rfl

@[simp] theorem escape_append : escape quote (s ++ t) = escape quote s ++ escape quote t := List.flatMap_append

theorem escapeChar_cases (quote : Bool) (c : Char) : (escapeChar quote c = [c] ∧ c ≠ '&' ∧ c ≠ '<' ∧ c ≠ '>') ∨
    ∃ name, (name, c) ∈ references ∧ escapeChar quote c = '&' :: name ++ [';'] := by
  unfold escapeChar
  cases hfind : (if quote then references else references.take 3).find? fun r => r.2 = c with
  | none =>
    refine Or.inl ⟨rfl, ?_⟩
    rw [List.find?_eq_none] at hfind
    have hall : ∀ r ∈ references.take 3, r.2 ≠ c := by
      intro r hr heq
      have hmem : r ∈ (if quote then references else references.take 3) := by
        split
        · exact List.mem_of_mem_take hr
        · exact hr
      exact hfind r hmem (decide_eq_true heq)
    exact ⟨(hall _ (by decide : ("amp".toList, '&') ∈ _)).symm, (hall _ (by decide : ("lt".toList, '<') ∈ _)).symm,
      (hall _ (by decide : ("gt".toList, '>') ∈ _)).symm⟩
  | some r =>
    have hmem := List.mem_of_find?_eq_some hfind
    have hc : r.2 = c := by simpa using List.find?_some hfind
    refine Or.inr ⟨r.1, ?_, rfl⟩
    rw [← hc]
    split at hmem
    · exact hmem
    · exact List.mem_of_mem_take hmem

theorem unescapeFrom_skip (hn : s.length = n) : unescapeFrom n (s ++ t) = unescapeFrom 0 t := by
  induction s generalizing n with
  | nil => rw [← hn]; rfl
  | cons c s ih =>
    rw [← hn, List.length_cons, List.cons_append, unescapeFrom, if_pos (Nat.succ_pos _), Nat.add_sub_cancel]
    exact ih rfl

theorem find?_prefix (hr : r ∈ references) :
    (references.find? fun r' => (r'.1 ++ [';']).isPrefixOf (r.1 ++ [';'] ++ t)) = some r := by
  simp only [references, List.mem_cons, List.not_mem_nil, or_false] at hr
  rcases hr with rfl | rfl | rfl | rfl | rfl <;> simp [references, List.isPrefixOf]

theorem unescapeFrom_reference (hr : r ∈ references) :
    unescapeFrom 0 ('&' :: r.1 ++ [';'] ++ t) = r.2 :: unescapeFrom 0 t := by
  rw [List.cons_append, List.cons_append, unescapeFrom, if_neg (Nat.lt_irrefl 0), if_pos rfl, find?_prefix hr]
  dsimp only
  rw [unescapeFrom_skip (by rw [List.length_append, List.length_singleton])]

theorem unescape_escape (t : Text) : unescape (escape quote t) = t := by
  induction t with
  | nil => rfl
  | cons c t ih =>
    rw [escape_cons, unescape]
    rcases escapeChar_cases quote c with ⟨hc, hamp, -, -⟩ | ⟨name, hmem, hc⟩
    · rw [hc, List.singleton_append, unescapeFrom, if_neg (Nat.lt_irrefl 0), if_neg hamp]
      exact congrArg (c :: ·) ih
    · rw [hc, unescapeFrom_reference hmem]
      exact congrArg (c :: ·) ih

end Escape

section Joined
variable {a b d : List Text} {c x : Char} {t u html html' text text' tag opening p : Text} {quote : Bool}

theorem Markup.trans (h : Markup a html b text) (h' : Markup b html' d text') : Markup a (html ++ html') d (text ++ text') := by
  induction h with
  | nil => exact h'
  | text c rest ih =>
    rw [List.append_assoc]
    exact .text c (ih h')
  | starttag start rest ih =>
    rw [List.append_assoc]
    exact .starttag start (ih h')
  | endtag name rest ih =>
    rw [List.append_assoc]
    exact .endtag name (ih h')

theorem markup_escape (t : Text) : Markup a (escape false t) a t := by
  induction t with
  | nil => exact .nil
  | cons c t ih => exact .text c ih

theorem markup_plain (h : escape false t = t) : Markup a t a t := by
  have hmarkup := markup_escape (a := a) t
  rwa [h] at hmarkup

theorem markup_starttag (h : IsStarttag tag opening) : Markup a opening (tag :: a) [] := by
  have hmarkup : Markup a (opening ++ []) (tag :: a) [] := .starttag h .nil
  rwa [List.append_nil] at hmarkup

theorem markup_endtag (h : IsName tag) : Markup (tag :: a) ('<' :: '/' :: tag ++ ['>']) a [] := by
  have hmarkup : Markup (tag :: a) ('<' :: '/' :: tag ++ ['>'] ++ []) a [] := .endtag h .nil
  rwa [List.append_nil] at hmarkup

theorem isStarttag_plain (h : IsName tag) : IsStarttag tag ('<' :: tag ++ ['>']) :=
  ⟨h, [], by rw [List.append_nil], Or.inl rfl⟩

theorem isSpace_plain (h : isSpace c = true) : escapeChar quote c = [c] := by
  rcases escapeChar_cases quote c with ⟨hsame, -⟩ | ⟨name, hmem, -⟩
  · exact hsame
  · have hall : ∀ r ∈ references, isSpace r.2 = false := by decide
    rw [hall _ hmem] at h
    cases h

theorem IsStarttag.exists_concat (h : IsStarttag tag opening) : ∃ start, opening = '<' :: start ++ ['>'] := by
  obtain ⟨-, attr, rfl, -⟩ := h
  exact ⟨tag ++ attr, rfl⟩

theorem Markup.dropWhile (h : Markup a html b text) : ∃ text', Markup a (html.dropWhile isSpace) b text' := by
  induction h with
  | nil => exact ⟨[], .nil⟩
  | @text _ html _ text c rest ih =>
    by_cases hc : isSpace c = true
    · rw [isSpace_plain hc, List.singleton_append, List.dropWhile_cons_of_pos hc]
      exact ih
    · refine ⟨c :: text, ?_⟩
      rcases escapeChar_cases false c with ⟨hsame, -⟩ | ⟨name, -, hescaped⟩
      · have hkeep : (escapeChar false c ++ html).dropWhile isSpace = escapeChar false c ++ html := by
          rw [hsame, List.singleton_append, List.dropWhile_cons_of_neg hc]
        rw [hkeep]
        exact .text c rest
      · have hkeep : (escapeChar false c ++ html).dropWhile isSpace = escapeChar false c ++ html := by
          rw [hescaped]
          exact List.dropWhile_cons_of_neg (by decide)
        rw [hkeep]
        exact .text c rest
  | @starttag _ opening _ html _ text start rest ih =>
    have hkeep : (opening ++ html).dropWhile isSpace = opening ++ html := by
      obtain ⟨inner, rfl⟩ := start.exists_concat
      exact List.dropWhile_cons_of_neg (by decide)
    rw [hkeep]
    exact ⟨text, .starttag start rest⟩
  | @endtag tag _ html _ text name rest ih => exact ⟨text, .endtag name rest⟩

theorem append_eq_concat (h : p ++ u = t ++ [x]) : (u = [] ∧ p = t ++ [x]) ∨ ∃ u', u = u' ++ [x] ∧ t = p ++ u' := by
  rcases List.eq_nil_or_concat' u with rfl | ⟨u', y, rfl⟩
  · exact Or.inl ⟨rfl, by rw [← h, List.append_nil]⟩
  · rw [← List.append_assoc] at h
    obtain ⟨ht, hy⟩ := List.append_inj' h rfl
    exact Or.inr ⟨u', by rw [List.cons.inj hy |>.1], ht.symm⟩

theorem Markup.dropLast (hx : isSpace x = true) (h : Markup a (t ++ [x]) b text) : ∃ text', Markup a t b text' := by
  have hend : ∀ {t p : Text} {y : Char}, isSpace y = false → p ++ [y] ≠ t ++ [x] := by
    intro t p y hy heq
    have hlast := (List.append_inj' heq rfl).2
    rw [(List.cons.inj hlast).1, hx] at hy
    cases hy
  generalize hu : t ++ [x] = u at h
  induction h generalizing t with
  | nil => exact absurd hu (List.append_ne_nil_of_right_ne_nil _ (List.cons_ne_nil _ _))
  | text c rest ih =>
    rcases append_eq_concat hu.symm with ⟨rfl, hpiece⟩ | ⟨u', rfl, rfl⟩
    · rcases escapeChar_cases false c with ⟨hsame, -⟩ | ⟨name, -, hescaped⟩
      · rw [hsame] at hpiece
        have hnil : t = [] := by
          have hlength := congrArg List.length hpiece
          rw [List.length_append, List.length_singleton, List.length_singleton] at hlength
          exact List.length_eq_zero_iff.mp (by omega)
        rw [hnil]
        exact ⟨_, rest⟩
      · rw [hescaped] at hpiece
        exact absurd hpiece (hend (by decide))
    · obtain ⟨text', h'⟩ := ih rfl
      exact ⟨c :: text', .text c h'⟩
  | starttag start rest ih =>
    rcases append_eq_concat hu.symm with ⟨-, hpiece⟩ | ⟨u', rfl, rfl⟩
    · obtain ⟨inner, rfl⟩ := start.exists_concat
      exact absurd hpiece (hend (by decide))
    · obtain ⟨text', h'⟩ := ih rfl
      exact ⟨text', .starttag start h'⟩
  | endtag name rest ih =>
    rcases append_eq_concat hu.symm with ⟨-, hpiece⟩ | ⟨u', rfl, rfl⟩
    · exact absurd hpiece (hend (by decide))
    · obtain ⟨text', h'⟩ := ih rfl
      exact ⟨text', .endtag name h'⟩

theorem WellFormed.strip (h : WellFormed html) : WellFormed (strip html) := by
  obtain ⟨text, h⟩ := h
  obtain ⟨text', h⟩ := h.dropWhile
  rw [strip_eq]
  generalize html.dropWhile isSpace = t at h
  induction t using List.reverseRecOn generalizing text' with
  | nil => exact ⟨text', h⟩
  | append_singleton t x ih =>
    by_cases hx : isSpace x = true
    · rw [List.rdropWhile_concat_pos _ _ _ hx]
      obtain ⟨text'', h'⟩ := h.dropLast hx
      exact ih _ h'
    · rw [List.rdropWhile_concat_neg _ _ _ hx]
      exact ⟨text', h⟩

end Joined

/-- Calls that take the open tags `tags` to `tags'`. -/
inductive Nested : List Text → List Event → List Text → Text → Prop where
  | nil {tags} : Nested tags [] tags []
  | data {tags es tags' text} (d : Text) (plain : ∀ c ∈ d, c ≠ '&' ∧ c ≠ '<' ∧ c ≠ '>') (rest : Nested tags es tags' text) :
    Nested tags (.data d :: es) tags' (d ++ text)
  | reference {name c tags es tags' text} (known : (name, c) ∈ references) (escaped : escapeChar false c = '&' :: name ++ [';'])
    (rest : Nested tags es tags' text) : Nested tags (.reference name :: es) tags' (c :: text)
  | starttag {tag opening tags es tags' text} (start : IsStarttag tag opening) (rest : Nested (tag :: tags) es tags' text) :
    Nested tags (.starttag tag opening :: es) tags' text
  | endtag {tag tags es tags' text} (name : IsName tag) (rest : Nested tags es tags' text) :
    Nested (tag :: tags) (.endtag tag :: es) tags' text

section Reports
variable {c : Char} {s t body name value tag opening text html html' text' : Text} {n : Nat} {a b tags : List Text} {es : List Event}

theorem reportFrom_skip (hn : s.length = n) : reportFrom n (s ++ t) = reportFrom 0 t := by
  induction s generalizing n with
  | nil => rw [← hn]; rfl
  | cons c s ih =>
    rw [← hn, List.length_cons, List.cons_append, reportFrom, if_pos (Nat.succ_pos _), Nat.add_sub_cancel]
    exact ih rfl

theorem takeWhile_until (h : c ∉ body) : (body ++ [c] ++ t).takeWhile (· ≠ c) = body := by
  have hbody : ∀ x ∈ body, decide (x ≠ c) = true := fun x hx => decide_eq_true fun heq => h (heq ▸ hx)
  rw [List.append_assoc, List.takeWhile_append_of_pos hbody, List.singleton_append,
    List.takeWhile_cons_of_neg (by simp), List.append_nil]

theorem report_tag (h : '>' ∉ body) : report ('<' :: body ++ ['>'] ++ t) = tagEvent body :: report t := by
  rw [report, List.cons_append, List.cons_append, reportFrom, if_neg (Nat.lt_irrefl 0), if_pos rfl, takeWhile_until h,
    reportFrom_skip (by rw [List.length_append, List.length_singleton])]
  rfl

theorem report_reference (h : ';' ∉ name) : report ('&' :: name ++ [';'] ++ t) = .reference name :: report t := by
  rw [report, List.cons_append, List.cons_append, reportFrom, if_neg (Nat.lt_irrefl 0), if_neg (by decide), if_pos rfl,
    takeWhile_until h, reportFrom_skip (by rw [List.length_append, List.length_singleton])]
  rfl

theorem report_char (hlt : c ≠ '<') (hamp : c ≠ '&') : report (c :: t) = consData c (report t) := by
  rw [report, reportFrom, if_neg (Nat.lt_irrefl 0), if_neg hlt, if_neg hamp]
  rfl

theorem IsName.not_mem (h : IsName name) (hc : c.isLower = false) : c ∉ name := fun hmem => by
  rw [List.all_eq_true.mp h.2 c hmem] at hc
  cases hc

theorem not_mem_escape (hc : c ∈ ['<', '>', '\x22', '\x27']) : c ∉ escape true value := by
  intro hmem
  obtain ⟨x, -, hx⟩ := List.mem_flatMap.mp hmem
  have hreferences : ∀ r ∈ references, ∀ c ∈ ['<', '>', '\x22', '\x27'], c ∉ '&' :: r.1 ++ [';'] ∧
      escapeChar true c ≠ [c] := by simp [references, escapeChar]
  rcases escapeChar_cases true x with ⟨hsame, -⟩ | ⟨name, hname, hescaped⟩
  · rw [hsame, List.mem_singleton] at hx
    subst hx
    exact (hreferences _ (List.mem_cons_self) c hc).2 hsame
  · rw [hescaped] at hx
    exact (hreferences _ hname c hc).1 hx

theorem report_starttag (h : IsStarttag tag opening) : report (opening ++ t) = .starttag tag opening :: report t := by
  obtain ⟨hname, attr, rfl, hattr⟩ := h
  have hgt : '>' ∉ attr := by
    rcases hattr with rfl | ⟨name, value, hattrname, rfl⟩
    · exact List.not_mem_nil
    · have hmem : '>' ∉ name := hattrname.not_mem (by decide)
      have hvalue : '>' ∉ escape true value := not_mem_escape (c := '>') (by decide)
      have hequals : '>' ∉ "=\"".toList := by decide
      simp only [List.mem_append, List.mem_cons, List.not_mem_nil, or_false, not_or]
      exact ⟨⟨⟨⟨by decide, hmem⟩, hequals⟩, hvalue⟩, by decide⟩
  have hbody : '>' ∉ tag ++ attr := by
    rw [List.mem_append, not_or]
    exact ⟨hname.not_mem (by decide), hgt⟩
  have htag : tag.takeWhile (· ≠ ' ') = tag := by
    rw [List.takeWhile_eq_self_iff]
    exact fun x hx => decide_eq_true fun heq => hname.not_mem (by decide : ' '.isLower = false) (heq ▸ hx)
  have htake : (tag ++ attr).takeWhile (· ≠ ' ') = tag := by
    rcases hattr with rfl | ⟨name, value, -, rfl⟩
    · rw [List.append_nil, htag]
    · rw [List.takeWhile_append_of_pos (List.takeWhile_eq_self_iff.mp htag)]
      simp
  obtain ⟨x, rest, rfl⟩ := List.exists_cons_of_ne_nil hname.1
  have hslash : x ≠ '/' := fun heq => hname.not_mem (by decide : '/'.isLower = false) (heq ▸ List.mem_cons_self)
  have hevent : tagEvent (x :: rest ++ attr) = .starttag (x :: rest) ('<' :: (x :: rest ++ attr) ++ ['>']) := by
    rw [List.cons_append, tagEvent, ← List.cons_append, htake]
    rintro u ⟨⟩
    exact hslash rfl
  rw [List.cons_append, report_tag hbody, hevent]

theorem report_endtag (h : IsName tag) : report ('<' :: '/' :: tag ++ ['>'] ++ t) = .endtag tag :: report t := by
  have hgt : '>' ∉ '/' :: tag := by
    rw [List.mem_cons, not_or]
    exact ⟨by decide, h.not_mem (by decide)⟩
  exact report_tag hgt

theorem Nested.consData (hc : c ≠ '&' ∧ c ≠ '<' ∧ c ≠ '>') (h : Nested a es b text) : Nested a (consData c es) b (c :: text) := by
  have hsingle : Nested a (.data [c] :: es) b (c :: text) := .data [c] (by simpa using hc) h
  cases h with
  | data d hd rest => exact .data (c :: d) (List.forall_mem_cons.mpr ⟨hc, hd⟩) rest
  | nil => exact hsingle
  | reference known escaped rest => exact hsingle
  | starttag start rest => exact hsingle
  | endtag name rest => exact hsingle

theorem Markup.nested (h : Markup a html b text) : Nested a (report html) b text := by
  induction h with
  | nil => exact .nil
  | text c rest ih =>
    rcases escapeChar_cases false c with ⟨hsame, hamp, hlt, hgt⟩ | ⟨name, hmem, hescaped⟩
    · rw [hsame, List.singleton_append, report_char hlt hamp]
      exact ih.consData ⟨hamp, hlt, hgt⟩
    · have hnames : ∀ r ∈ references, ';' ∉ r.1 := by decide
      rw [hescaped, report_reference (hnames _ hmem)]
      exact .reference hmem hescaped ih
  | starttag start rest ih =>
    rw [report_starttag start]
    exact .starttag start ih
  | endtag name rest ih =>
    rw [report_endtag name]
    exact .endtag name ih

theorem Nested.flatMap_text (h : Nested a es b text) : es.flatMap Event.text = text := by
  induction h with
  | nil => rfl
  | data d _ _ ih => rw [List.flatMap_cons, ih]; rfl
  | @reference name c _ _ _ _ hmem _ _ ih =>
    have hdecoded : unescape ('&' :: name ++ [';']) = [c] := by
      have h := unescapeFrom_reference (t := []) hmem
      rwa [List.append_nil] at h
    rw [List.flatMap_cons, ih, Event.text, hdecoded]
    rfl
  | starttag _ _ ih => rw [List.flatMap_cons, ih]; rfl
  | endtag _ _ ih => rw [List.flatMap_cons, ih]; rfl

theorem Markup.textContent_eq (h : Markup a html b text) : textContent html = text := h.nested.flatMap_text

end Reports

end Vuzol.Lib.Html
