import ClassRefactor.Text.Line

/-!
# Cursors

A cursor is given as a byte offset, or as a line and a column.
-/

namespace ClassRefactor

/-- A path with forward slashes, as it is shown. -/
def displayPath (path : String) : String :=
  .ofList (path.toList.map fun c => if c == '\\' then '/' else c)

/-- A position as a user gives it. An offset takes precedence, and a line needs its column. -/
structure Cursor where
  offset : Option Nat := none
  line : Option Nat := none
  column : Option Nat := none
deriving DecidableEq, Repr

/-- A position that is not in the file. -/
inductive CursorError where
  | badOffset (path : String) (offset size : Nat)
  | outside (path : String) (line column : Nat)
deriving DecidableEq, Repr

def CursorError.message : CursorError → String
  | .badOffset path offset size =>
    s!"offset {offset} is not a valid position in {path} ({size} bytes)"
  | .outside path line column => s!"{path}:{line}:{column} is outside the file"

/-- The byte offset of a cursor in a file, or none if no position is given. -/
def Cursor.locate (c : Cursor) (path : String) (text : Text) : Except CursorError (Option Nat) :=
  match c.offset, c.line, c.column with
  | some offset, _, _ =>
    if text.isBoundary offset then .ok (some offset) else .error (.badOffset path offset text.size)
  | none, some line, some column =>
    match text.offsetAt? line column with
    | some offset => .ok (some offset)
    | none => .error (.outside path line column)
  | none, _, _ => .ok none

end ClassRefactor
