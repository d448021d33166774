import ClassRefactor.Edit.Basic

/-!
# Edits across files

A refactoring answers with edits of one or more files. Before use they are normalized: sorted, freed
of duplicates, insertions at one place joined, and overlaps refused.
-/

namespace ClassRefactor

/-- The edits of one refactoring. -/
structure WorkspaceEdit where
  edits : List TextEdit := []
deriving DecidableEq, Repr, Inhabited

namespace TextEdit

/-- Edits are ordered by file, then by position. -/
def order (a b : TextEdit) : Ordering := (compare a.file b.file).then (a.range.order b.range)

/-- Drops every edit that equals the one before it. -/
def dropRepeats : List TextEdit → List TextEdit
  | [] => []
  | [e] => [e]
  | e :: f :: rest => if e == f then dropRepeats (f :: rest) else e :: dropRepeats (f :: rest)

/-- Edits in order, without exact repeats. -/
def sorted (edits : List TextEdit) : List TextEdit :=
  dropRepeats (edits.mergeSort fun a b => (a.order b).isLE)

/-- Joins insertions at one place and refuses overlaps, where `last` is the edit before the rest. -/
def mergeFrom (last : TextEdit) : List TextEdit → Except EditError (List TextEdit)
  | [] => .ok [last]
  | e :: rest =>
    if last.file == e.file && last.range == e.range && e.range.isEmpty then
      mergeFrom { last with replacement := last.replacement ++ e.replacement } rest
    else if last.file == e.file && e.range.start < last.range.stop then
      .error (.overlapping e.file last.range e.range)
    else (mergeFrom e rest).map (last :: ·)

/-- Merges edits that are in order. -/
def merge : List TextEdit → Except EditError (List TextEdit)
  | [] => .ok []
  | e :: rest => mergeFrom e rest

end TextEdit

namespace WorkspaceEdit

def isEmpty (w : WorkspaceEdit) : Bool := w.edits.isEmpty

/-- The edits in normal form. -/
def normalized (w : WorkspaceEdit) : Except EditError WorkspaceEdit :=
  (TextEdit.merge (TextEdit.sorted w.edits)).map fun edits => { edits }

/-- Normalizes in place: the verdict, and what the edit holds afterwards. The edits are moved out to
be merged, so none is left when they overlap. -/
def normalize (w : WorkspaceEdit) : Except EditError Unit × WorkspaceEdit :=
  match w.normalized with
  | .ok result => (.ok (), result)
  | .error e => (.error e, {})

/-- The edited files, each once, in ascending order. -/
def files (w : WorkspaceEdit) : List String :=
  ((w.edits.map TextEdit.file).eraseDups).mergeSort fun a b => decide (a ≤ b)

/-- The edits of one file, in the order of their positions. -/
def editsOf (w : WorkspaceEdit) (file : String) : List TextEdit :=
  TextEdit.byPosition (w.edits.filter (·.file == file))

/-- The edits of each file, files in ascending order. -/
def editsByFile (w : WorkspaceEdit) : List (String × List TextEdit) :=
  w.files.map fun file => (file, w.editsOf file)

end WorkspaceEdit

/-- The contents of some files by name. -/
abbrev FileMap := List (String × Text)

namespace FileMap

/-- The contents of a file. -/
def get? (files : FileMap) (name : String) : Option Text := List.lookup name files

/-- Replaces the contents of a file that is there. -/
def set (files : FileMap) (name : String) (text : Text) : FileMap :=
  files.map fun (n, t) => if n == name then (n, text) else (n, t)

/-- The contents of a file after some edits of it. -/
def edited (files : FileMap) (name : String) (edits : List TextEdit) : Except EditError Text :=
  match files.get? name with
  | none => .error (.unknownFile name)
  | some text => text.applyEdits edits

/-- Applies edits file by file; the first file that fails decides the error. -/
def applyGroups (files : FileMap) :
    List (String × List TextEdit) → FileMap → Except EditError FileMap
  | [], result => .ok result
  | (name, edits) :: rest, result => do
    let text ← files.edited name edits
    applyGroups files rest (result.set name text)

/-- Applies a workspace edit to all files, or fails without a result. -/
def applyEdit (files : FileMap) (w : WorkspaceEdit) : Except EditError FileMap := do
  let w ← w.normalized
  applyGroups files w.editsByFile files

end FileMap

end ClassRefactor
