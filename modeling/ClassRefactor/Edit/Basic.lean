import ClassRefactor.Text.Basic
import ClassRefactor.Text.Quoted
import ClassRefactor.Text.Range

/-!
# Edits of a text

An edit replaces a range of a file. Several edits of one text are applied from the last to the
first, so that the offsets of the earlier ones stay valid.
-/

namespace ClassRefactor

/-- The replacement of a range of a file. -/
structure TextEdit where
  file : String
  range : Range
  replacement : String
deriving DecidableEq, Repr, Inhabited

/-- Why edits cannot be applied. -/
inductive EditError where
  /-- Two edits of one file change the same text. -/
  | overlapping (file : String) (first second : Range)
  /-- A range does not fit the text as edited so far, which has `size` bytes. -/
  | outOfBounds (file : String) (range : Range) (size : Nat)
  | unknownFile (file : String)
deriving DecidableEq, Repr

namespace EditError

/-- A file as messages name it. -/
def showFile (file : String) : String := "FileId(" ++ quoted file ++ ")"

/-- A range as messages give it. -/
def showRange (r : Range) : String :=
  "TextRange \x7b start: " ++ toString r.start ++ ", end: " ++ toString r.stop ++ " \x7d"

def message : EditError → String
  | .overlapping file first second =>
    "overlapping edits in " ++ showFile file ++ ": " ++ showRange first ++ " overlaps " ++
      showRange second
  | .outOfBounds file range size =>
    "text edit range " ++ showRange range ++ " is outside the file bounds (len=" ++
      toString size ++ ") in " ++ showFile file
  | .unknownFile file => "edit targets unknown file " ++ showFile file

end EditError

namespace TextEdit

/-- Edits are ordered by where they start, then by where they stop. -/
def positionLe (a b : TextEdit) : Bool := (a.range.order b.range).isLE

/-- Edits in the order of their positions. Edits of one range keep their order. -/
def byPosition (edits : List TextEdit) : List TextEdit := edits.mergeSort positionLe

/-- Replaces the range of an edit in a text. -/
def applyTo (e : TextEdit) (t : Text) : Except EditError Text :=
  if e.range.stop ≤ t.size && t.isBoundary e.range.start && t.isBoundary e.range.stop then
    .ok (t.before e.range.start ++ e.replacement.toList ++ t.after e.range.stop)
  else .error (.outOfBounds e.file e.range t.size)

end TextEdit

/-- Applies edits to a text, whatever files they name. -/
def Text.applyEdits (t : Text) (edits : List TextEdit) : Except EditError Text :=
  (TextEdit.byPosition edits).foldr (fun e result => result.bind e.applyTo) (.ok t)

end ClassRefactor
