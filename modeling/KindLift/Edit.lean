import KindLift.Digest
import KindLift.Text.Offset
import KindLift.Text.Quoted

/-! Textual edits. An edit replaces a byte range of a text; a set of edits is
bound to the text it was computed against by that text's fingerprint and is
applied as a whole or not at all. -/
namespace KindLift

/-- Puts `replacement` in place of the bytes from `start` up to `stop`. -/
structure Edit where
  start : Nat
  stop : Nat
  replacement : String
  ordered : start ≤ stop
deriving DecidableEq

namespace Edit

/-- The edit of a byte range, when the range is not inverted. -/
def replace? (start stop : Nat) (replacement : String) : Option Edit :=
  if ordered : start ≤ stop then some ⟨start, stop, replacement, ordered⟩ else none

/-- The edit that puts text in front of the byte at an offset. -/
def insertion (offset : Nat) (text : String) : Edit := ⟨offset, offset, text, Nat.le_refl offset⟩

def isInsertion (edit : Edit) : Bool := edit.start = edit.stop

/-- Two edits conflict when their order would matter: two insertions at one
offset, an insertion strictly inside a range, or two ranges with a common byte. -/
def overlaps (a b : Edit) : Bool :=
  if a.isInsertion && b.isInsertion then a.start = b.start
  else if a.isInsertion then b.start < a.start && a.start < b.stop
  else if b.isInsertion then a.start < b.start && b.start < a.stop
  else a.start < b.stop && b.start < a.stop

def render (edit : Edit) : String :=
  toString edit.start ++ ".." ++ toString edit.stop ++ " => " ++ Text.quoteText edit.replacement

/-- By start, then by stop. -/
def le (a b : Edit) : Bool := a.start < b.start || (a.start = b.start && a.stop ≤ b.stop)

/-- From the highest range down: by start, then by stop, both decreasing. -/
def ge (a b : Edit) : Bool := b.start < a.start || (a.start = b.start && b.stop ≤ a.stop)

end Edit

/-- Why a set of edits cannot be applied. -/
inductive EditError where
  | overlapping (first second : Edit)
  | outOfBounds (edit : Edit) (length : Nat)
  | insideCharacter (edit : Edit)
  | otherBase (expected actual : Digest)
deriving DecidableEq

def EditError.message : EditError → String
  | .overlapping first second => "overlapping edits: " ++ first.render ++ " and " ++ second.render
  | .outOfBounds edit length =>
    "edit " ++ edit.render ++ " out of bounds for text of " ++ toString length ++ " bytes"
  | .insideCharacter edit => "edit " ++ edit.render ++ " does not fall on a char boundary"
  | .otherBase expected actual =>
    "base hash mismatch: expected " ++ expected.render ++ ", got " ++ actual.render

/-- The edits one rule makes to one text, in the order it made them. -/
structure EditSet where
  rule : String
  base : Digest
  edits : List Edit
deriving DecidableEq

namespace EditSet

/-- The edits of `rule` over `text`. -/
def onText (rule : String) (text : String) (edits : List Edit) : EditSet :=
  ⟨rule, Digest.ofText text, edits⟩

/-- The first two neighbours that conflict. -/
def neighbourConflict : List Edit → Option (Edit × Edit)
  | a :: b :: rest => if a.overlaps b then some (a, b) else neighbourConflict (b :: rest)
  | _ => none

/-- The first edit that conflicts with the one reaching furthest before it. An
insertion between two neighbours does not hide a wider range around them. -/
def reachConflict : Option Edit → List Edit → Option (Edit × Edit)
  | _, [] => none
  | none, edit :: rest => reachConflict (if 0 < edit.stop then some edit else none) rest
  | some widest, edit :: rest =>
    if edit.start < widest.stop && widest.overlaps edit then some (widest, edit)
    else reachConflict (if widest.stop < edit.stop then some edit else some widest) rest

/-- Two edits that conflict, if there are any. -/
def conflict? (edits : List Edit) : Option (Edit × Edit) :=
  let sorted := edits.mergeSort Edit.le
  (neighbourConflict sorted).or (reachConflict none sorted)

/-- No two edits may conflict. -/
def validate (set : EditSet) : Except EditError Unit :=
  match conflict? set.edits with
  | some (first, second) => .error (.overlapping first second)
  | none => .ok ()

/-- Every edit addresses characters of the text. -/
def checkRanges (chars : List Char) (length : Nat) : List Edit → Except EditError Unit
  | [] => .ok ()
  | edit :: rest =>
    if length < edit.stop then .error (.outOfBounds edit length)
    else if Text.isBoundary chars edit.start && Text.isBoundary chars edit.stop then
      checkRanges chars length rest
    else .error (.insideCharacter edit)

/-- Replaces one range of the characters. -/
def replaceRange (chars : List Char) (edit : Edit) : Except EditError (List Char) :=
  match Text.takeBytes? edit.start chars, Text.dropBytes? edit.stop chars with
  | some left, some right => .ok (left ++ edit.replacement.toList ++ right)
  | _, _ => .error (.insideCharacter edit)

/-- Applies the edits from the highest range down, so that the offsets of the
edits still to come stay valid. -/
def applyDescending (chars : List Char) (edits : List Edit) : Except EditError (List Char) :=
  (edits.mergeSort Edit.ge).foldlM replaceRange chars

/-- The edited text. The fingerprint is checked first, then conflicts, then the
ranges; an empty set changes nothing. -/
def apply (set : EditSet) (text : String) : Except EditError String := do
  let actual := Digest.ofText text
  if set.base ≠ actual then throw (.otherBase set.base actual)
  if set.edits.isEmpty then return text
  set.validate
  let chars := text.toList
  checkRanges chars (Text.byteLength chars) set.edits
  return String.ofList (← applyDescending chars set.edits)

end EditSet
end KindLift
