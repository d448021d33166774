import ClassRefactor.Diff.Unified
import ClassRefactor.Edit.Workspace

/-!
# Previews

What a workspace edit would do to each file that it changes.
-/

namespace ClassRefactor

/-- The change of one file. -/
structure FilePreview where
  file : String
  before : Text
  after : Text
  diff : String
  /-- The number of edits of this file. -/
  editCount : Nat
deriving Repr

structure Preview where
  totalEdits : Nat
  files : List FilePreview
deriving Repr

/-- The change of one file, if it changes at all. -/
def FilePreview.of? (radius : Nat) (edits : List TextEdit) (name : String) (before after : Text) :
    Option FilePreview :=
  if before == after then none
  else
    some
      { file := name, before, after, diff := Diff.unified name radius before after
        editCount := edits.countP (·.file == name) }

/-- The changes that an edit makes to files, in the order of the files, with `radius` lines of
context around each. -/
def FileMap.preview (files : FileMap) (w : WorkspaceEdit) (radius : Nat) :
    Except EditError Preview := do
  let w ← w.normalized
  let result ← files.applyEdit w
  let previews := files.filterMap fun (name, before) =>
    FilePreview.of? radius w.edits name before ((result.get? name).getD [])
  return { totalEdits := w.edits.length, files := previews }

end ClassRefactor
