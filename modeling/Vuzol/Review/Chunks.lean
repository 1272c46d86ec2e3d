import Mathlib
import Vuzol.Lib.Uuid

/-! The chunks of a review bundle: how `_build_request` (`review/independent.py`) cuts the bundle, and how
    `verify_chunk_receipts` (`review/partitions.py`) checks a batch. -/

namespace Vuzol.Review

open Vuzol.Lib

/-- `IndependentReviewError`, and the errors of a number that `int` refuses and of a context item that is not valid. -/
inductive ChunkError where
  | noChunks
  | duplicateReceipt (reference : Text)
  | hashMismatch (reference : Text)
  | notVerifiable (reference : Text)
  | inconsistentTotals | missingParts
  | valueError | validationError

/-- The error is an `IndependentReviewError`. -/
def ChunkError.isReviewError : ChunkError → Bool
  | .valueError | .validationError => false
  | _ => true

/-- `ContextItem` (`providers/domain.py`), with the bounds that it checks. -/
structure ContextItem (δ : Type) where
  reference : Text
  content : Text
  contentHash : δ
  reference_ne_nil : reference ≠ []
  reference_le : reference.length ≤ 500
  content_le : content.length ≤ 20000

section References
-- The value of a decimal digit outside ASCII.
variable (decimal : Char → Option (Fin 10))

/-- `\d`. -/
def isDecimal (c : Char) : Bool := c.isDigit || (127 ≤ c.toNat && !isSpace c && (decimal c).isSome)

/-- `int(text)`. -/
def int (t : Text) : Except ChunkError Int :=
  match intOfText (fun c => (decimal c).map Fin.val) 10 t with
  | some n => .ok n
  | none => .error .valueError

/-- The text without `ending`. -/
def dropEnd? (ending t : Text) : Option Text :=
  if ending.isSuffixOf t then some (t.take (t.length - ending.length)) else none

/-- The groups of `:part-(\d+)-of-(\d+)$`; the end may stand before a newline. -/
def partGroups (reference : Text) : Option (Text × Text) := do
  let line := if reference.getLast? = some '\n' then reference.dropLast else reference
  let total := line.rtakeWhile (isDecimal decimal)
  let before ← dropEnd? "-of-".toList (line.rdropWhile (isDecimal decimal))
  let index := before.rtakeWhile (isDecimal decimal)
  let _ ← dropEnd? ":part-".toList (before.rdropWhile (isDecimal decimal))
  if total = [] ∨ index = [] then none else some (index, total)

end References

structure Receipts where
  seen : List Text := []
  totals : List Int := []
  indices : Finset Int := ∅

def Receipts.add (r : Receipts) (reference : Text) (index total : Int) : Receipts where
  seen := r.seen ++ [reference]
  totals := r.totals.insert total
  indices := insert index r.indices

/-- `set(range(1, total + 1))`. -/
def oneTo (total : Int) : Finset Int := (Finset.range total.toNat).image fun k : Nat => (k : Int) + 1

section Verify
variable {δ : Type} [DecidableEq δ] (decimal : Char → Option (Fin 10)) (digest : Text → δ)

def receive (r : Receipts) (c : ContextItem δ) : Except ChunkError Receipts := do
  raiseIf (c.reference ∈ r.seen) (.duplicateReceipt c.reference)
  raiseIf (c.contentHash ≠ digest c.content) (.hashMismatch c.reference)
  match partGroups decimal c.reference with
  | none => .error (.notVerifiable c.reference)
  | some (index, total) => do
    let index ← int decimal index
    let total ← int decimal total
    .ok (r.add c.reference index total)

def verifyChunkReceipts (chunks : List (ContextItem δ)) : Except ChunkError Unit := do
  raiseIf (chunks.isEmpty = true) .noChunks
  let r ← chunks.foldlM (receive decimal digest) {}
  match r.totals with
  | [total] => raiseIf (total ≠ chunks.length ∨ r.indices ≠ oneTo total) .missingParts
  | _ => .error .inconsistentTotals

end Verify

def maxContextItemChars : Nat := 20000

/-- The texts from each offset of `range(0, len(t), width)`. -/
def cut (width : Nat) (t : Text) : List Text :=
  (List.range ((t.length + width - 1) / width)).map fun k => (t.drop (k * width)).take width

/-- `str(n)`. -/
def str (n : Nat) : Text := Nat.toDigits 10 n

/-- The reference of part `index` of `total`. -/
def referenceOf (resultCommit : Text) (partitionId : Option Text) (index total : Nat) : Text :=
  "worktree-diff:".toList ++ resultCommit.take 12 ++ ((partitionId.filter (· ≠ [])).map (':' :: ·)).getD [] ++
    ":part-".toList ++ str index ++ "-of-".toList ++ str total

section Batch
variable {δ : Type} (digest : Text → δ)

/-- `ContextItem(...)`. -/
def ContextItem.construct (reference content : Text) (contentHash : δ) : Except ChunkError (ContextItem δ) :=
  if h : reference ≠ [] ∧ reference.length ≤ 500 ∧ content.length ≤ 20000 then
    .ok
      { reference := reference, content := content, contentHash := contentHash
        reference_ne_nil := h.1, reference_le := h.2.1, content_le := h.2.2 }
  else .error .validationError

/-- The part of `_build_request` that cuts the encoded bundle. -/
def buildChunks (resultCommit : Text) (partitionId : Option Text) (encoded : Text) :
    Except ChunkError (List (ContextItem δ)) :=
  let chunks := cut maxContextItemChars encoded
  chunks.zipIdx.mapM fun c =>
    ContextItem.construct (referenceOf resultCommit partitionId (c.2 + 1) chunks.length) c.1 (digest c.1)

end Batch

end Vuzol.Review
