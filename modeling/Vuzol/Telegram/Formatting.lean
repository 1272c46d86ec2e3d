import Vuzol.Lib.Html

/-! Messages from Markdown: how `telegram/formatting.py` renders the tokens of the parser as HTML and splits the HTML into
    the parts that it sends. -/

namespace Vuzol.Formatting

open Vuzol.Lib Vuzol.Lib.Html

inductive Paired where
  | heading | paragraph | bulletList | orderedList | listItem | blockquote
  | strong | em | s | link
  deriving DecidableEq

/-- `Token.type`: `heading_open` is `.opening .heading`. -/
inductive Kind where
  | opening (p : Paired)
  | closing (p : Paired)
  | inline | fence | codeBlock | hr | htmlBlock
  | text | codeInline | softbreak | hardbreak | image | htmlInline
  | other

/-- A token of the Markdown parser, with the attributes `start` and `href`. -/
structure Token where
  kind : Kind
  content : Text := []
  info : Text := []
  hidden : Bool := false
  start : Option Nat := none
  href : Option Text := none

structure Block extends Token where
  children : List Token := []

inductive FormatError where
  | valueError | indexError | assertionError
  deriving DecidableEq

structure NetlocChecks where
  nfkc : Text → Bool
  bracketed : Text → Bool

def isSchemeChar (c : Char) : Bool := c.isAlphanum || c = '+' || c = '-' || c = '.'

def hasScheme (url : Text) : Bool :=
  ':' ∈ url && (before ':' url).head?.any Char.isAlpha && (before ':' url).all isSchemeChar

/-- `urlparse(value).scheme`. -/
def urlparseScheme (checks : NetlocChecks) (value : Text) : Except FormatError Text := do
  let url := (value.dropWhile fun c => c.toNat ≤ 0x20).filter fun c => c ≠ '\t' ∧ c ≠ '\r' ∧ c ≠ '\n'
  let rest := if hasScheme url then after ':' url else url
  if "//".toList.isPrefixOf rest then
    let netloc := (rest.drop 2).takeWhile fun c => c ≠ '/' ∧ c ≠ '?' ∧ c ≠ '#'
    raiseIf ('[' ∈ netloc ∧ ']' ∉ netloc ∨ ']' ∈ netloc ∧ '[' ∉ netloc) .valueError
    raiseIf ('[' ∈ netloc ∧ ']' ∈ netloc ∧ checks.bracketed netloc = false) .valueError
    raiseIf ((netloc.any fun c => 0x80 ≤ c.toNat) ∧ checks.nfkc netloc = false) .valueError
  .ok (if hasScheme url then (before ':' url).map Char.toLower else [])

def safeLink (checks : NetlocChecks) (value : Text) : Except FormatError Bool := do
  let scheme ← urlparseScheme checks value
  .ok (scheme ∈ ["http".toList, "https".toList, "tg".toList, "mailto".toList])

structure InlineState where
  output : Text := []
  linkStack : List Bool := []

def InlineState.append (st : InlineState) (t : Text) : InlineState := { st with output := st.output ++ t }

def renderInlineToken (checks : NetlocChecks) (st : InlineState) (token : Token) : Except FormatError InlineState :=
  match token.kind with
  | .text => .ok (st.append (escape false token.content))
  | .codeInline => .ok (st.append ("<code>".toList ++ escape false token.content ++ "</code>".toList))
  | .softbreak | .hardbreak => .ok (st.append ['\n'])
  | .opening .strong => .ok (st.append "<b>".toList)
  | .closing .strong => .ok (st.append "</b>".toList)
  | .opening .em => .ok (st.append "<i>".toList)
  | .closing .em => .ok (st.append "</i>".toList)
  | .opening .s => .ok (st.append "<s>".toList)
  | .closing .s => .ok (st.append "</s>".toList)
  | .opening .link => do
    let href := token.href.getD []
    let allowed ← safeLink checks href
    let st := { st with linkStack := allowed :: st.linkStack }
    .ok (if allowed then st.append ("<a href=\"".toList ++ escape true href ++ "\">".toList) else st)
  | .closing .link =>
    match st.linkStack with
    | [] => .error .indexError
    | allowed :: linkStack =>
      let st := { st with linkStack := linkStack }
      .ok (if allowed then st.append "</a>".toList else st)
  | .image | .htmlInline => .ok (st.append (escape false token.content))
  | _ => .ok st

def renderInline (checks : NetlocChecks) (tokens : List Token) : Except FormatError Text :=
  (·.output) <$> tokens.foldlM (renderInlineToken checks) {}

structure ListEntry where
  ordered : Bool
  number : Nat

structure HtmlState where
  output : Text := []
  lists : List ListEntry := []

def HtmlState.append (st : HtmlState) (t : Text) : HtmlState := { st with output := st.output ++ t }

/-- `int(str(token.attrGet("start") or 1))`. -/
def startOf (token : Token) : Nat :=
  match token.start with
  | none | some 0 => 1
  | some n => n

def languageOf (info : Text) : Text := (strip info).takeWhile fun c => !isSpace c

def openItem (st : HtmlState) : HtmlState :=
  let indent := List.replicate (2 * (st.lists.length - 1)) ' '
  match st.lists with
  | ⟨true, number⟩ :: lists =>
    { st with lists := ⟨true, number + 1⟩ :: lists }.append (indent ++ Nat.toDigits 10 number ++ ". ".toList)
  | _ => st.append (indent ++ "• ".toList)

def renderBlock (checks : NetlocChecks) (st : HtmlState) (token : Block) : Except FormatError HtmlState :=
  match token.kind with
  | .inline => st.append <$> renderInline checks token.children
  | .opening .heading => .ok (st.append "<b>".toList)
  | .closing .heading => .ok (st.append "</b>\n".toList)
  | .closing .paragraph => .ok (if token.hidden then st else st.append "\n\n".toList)
  | .opening .bulletList => .ok { st with lists := ⟨false, 1⟩ :: st.lists }
  | .opening .orderedList => .ok { st with lists := ⟨true, startOf token.toToken⟩ :: st.lists }
  | .closing .bulletList | .closing .orderedList =>
    match st.lists with
    | [] => .error .indexError
    | _ :: lists => .ok ({ st with lists := lists }.append ['\n'])
  | .opening .listItem => .ok (openItem st)
  | .closing .listItem => .ok (st.append ['\n'])
  | .opening .blockquote => .ok (st.append "<blockquote>".toList)
  | .closing .blockquote => .ok (st.append "</blockquote>\n".toList)
  | .fence | .codeBlock =>
    let language := languageOf token.info
    let languageAttr := if language = [] then [] else " class=\"language-".toList ++ escape true language ++ "\"".toList
    .ok (st.append ("<pre><code".toList ++ languageAttr ++ ">".toList ++ escape false token.content ++ "</code></pre>\n".toList))
  | .hr => .ok (st.append "────────\n".toList)
  | .htmlBlock => .ok (st.append (escape false token.content))
  | _ => .ok st

def telegramMarkdownHtml (checks : NetlocChecks) (tokens : List Block) : Except FormatError Text :=
  (fun st => strip st.output) <$> tokens.foldlM (renderBlock checks) {}

structure Splitter where
  parts : List (Text × Text) := []
  tags : List (Text × Text) := []
  markup : Text := []
  plain : Text := []
  units : Nat := 0

def closingTags (tags : List (Text × Text)) : Text := tags.flatMap fun t => '<' :: '/' :: t.1 ++ ['>']

def openingTags (tags : List (Text × Text)) : Text := tags.reverse.flatMap Prod.snd

namespace Splitter
variable (s : Splitter)

def flush : Splitter :=
  if s.units = 0 then s
  else
    { s with
      parts := s.parts ++ [(s.markup ++ closingTags s.tags, escape true s.plain)]
      markup := openingTags s.tags
      plain := []
      units := 0 }

/-- What the loop of `handle_data` appends at once. -/
def append (t : Text) : Splitter :=
  { s with markup := s.markup ++ escape false t, plain := s.plain ++ t, units := s.units + utf16 t }

/-- The end of a round of the loop, which takes `count` characters of the data. -/
def advance (data : Text) (count : Nat) : Splitter :=
  if data.drop count = [] then s.append (data.take count) else (s.append (data.take count)).flush

end Splitter

/-- How many characters of the data are available: `end - offset`. -/
def fitting : Nat → Text → Nat
  | _, [] => 0
  | available, c :: t => if available < width c then 0 else fitting (available - width c) t + 1

/-- `end - offset` after a line or a word, when one ends in the second half of the first `n` characters. -/
def wordEnd (n : Nat) (data : Text) : Nat :=
  -- `boundary + 1 - offset`: the characters up to the last delimiter.
  let upto := ((data.take n).rdropWhile fun c => c ≠ '\n' ∧ c ≠ ' ').length
  if n / 2 < upto then upto else n

def taken (available : Nat) (data : Text) : Nat :=
  if fitting available data < data.length then wordEnd (fitting available data) data else fitting available data

theorem width_pos (c : Char) : 0 < width c := by
  unfold width
  split <;> decide

theorem width_le (c : Char) : width c ≤ 2 := by
  unfold width
  split <;> decide

/-- Any character fits into an empty part. -/
theorem fitting_ne_zero {limit : Nat} {data : Text} (hlimit : 2 ≤ limit) (hdata : data ≠ []) : fitting limit data ≠ 0 := by
  cases data with
  | nil => exact absurd rfl hdata
  | cons c t =>
    have hc := width_le c
    rw [fitting, if_neg (by omega)]
    exact Nat.succ_ne_zero _

theorem wordEnd_bounds (n : Nat) (data : Text) : wordEnd n data ≤ n ∧ (n ≠ 0 → wordEnd n data ≠ 0) := by
  unfold wordEnd
  dsimp only
  split
  · rename_i h
    exact ⟨(List.rdropWhile_prefix _ _).length_le.trans (List.length_take_le _ _), fun _ => by omega⟩
  · exact ⟨Nat.le_refl n, id⟩

theorem taken_bounds (available : Nat) (data : Text) :
    taken available data ≤ fitting available data ∧ (fitting available data ≠ 0 → taken available data ≠ 0) := by
  unfold taken
  split
  · exact wordEnd_bounds _ _
  · exact ⟨Nat.le_refl _, id⟩

/-- `handle_data`. A full part is flushed before the data goes on, so no two rounds in a row take nothing. -/
def handleData {limit : Nat} (hlimit : 2 ≤ limit) (s : Splitter) (data : Text) : Splitter :=
  if data = [] then s
  else if fitting (limit - s.units) data = 0 then handleData hlimit s.flush data
  else
    handleData hlimit (s.advance data (taken (limit - s.units) data)) (data.drop (taken (limit - s.units) data))
  termination_by (data.length, s.units)
  decreasing_by
  · rename_i hdata hfit
    have hunits : s.units ≠ 0 := by
      intro hzero
      rw [hzero, Nat.sub_zero] at hfit
      exact fitting_ne_zero hlimit hdata hfit
    have hflush : s.flush.units = 0 := by
      rw [Splitter.flush, if_neg hunits]
    rw [hflush]
    exact Prod.Lex.right _ (Nat.pos_of_ne_zero hunits)
  · rename_i hdata hfit
    have hcount := (taken_bounds (limit - s.units) data).2 hfit
    have hlength := List.length_pos_of_ne_nil hdata
    refine Prod.Lex.left _ _ ?_
    rw [List.length_drop]
    omega

def entity (limit : Nat) (s : Splitter) (escaped : Text) : Splitter :=
  let decoded := unescape escaped
  let s := if limit < s.units + utf16 decoded then s.flush else s
  { s with markup := s.markup ++ escaped, plain := s.plain ++ decoded, units := s.units + utf16 decoded }

/-- `handle_starttag`, `handle_endtag`, `handle_data`, `handle_entityref` and `handle_charref`. -/
def handle {limit : Nat} (hlimit : 2 ≤ limit) (s : Splitter) : Event → Except FormatError Splitter
  | .starttag tag opening => .ok { s with tags := (tag, opening) :: s.tags, markup := s.markup ++ opening }
  | .endtag tag =>
    match s.tags with
    | [] => .error .assertionError
    | (top, _) :: tags =>
      if top = tag then .ok { s with tags := tags, markup := s.markup ++ ('<' :: '/' :: tag ++ ['>']) }
      else .error .assertionError
  | .data data => .ok (handleData hlimit s data)
  | .reference name => .ok (entity limit s ('&' :: name ++ [';']))

def Splitter.finish (s : Splitter) : Except FormatError (List (Text × Text)) :=
  if s.tags = [] then .ok (if s.flush.parts = [] then [([], [])] else s.flush.parts) else .error .assertionError

/-- `telegram_markdown_parts`, for the tokens of the Markdown. -/
def telegramMarkdownParts (checks : NetlocChecks) (tokens : List Block) (limit : Nat) :
    Except FormatError (List (Text × Text)) :=
  if hlimit : 2 ≤ limit then do
    let html ← telegramMarkdownHtml checks tokens
    let s ← (report html).foldlM (handle hlimit) {}
    s.finish
  else .error .valueError

end Vuzol.Formatting
