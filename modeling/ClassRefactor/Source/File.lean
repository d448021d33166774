import ClassRefactor.Layout.Class
import ClassRefactor.Source.Reading

/-!
# Source files

A source file is read into the classes it declares, each with its tree, its layout and the number of
classes around it.
-/

namespace ClassRefactor

/-- A class found in a source file. -/
structure ParsedClass where
  node : ClassNode
  layout : ClassLayout
  /-- The number of classes around this one. -/
  nesting : Nat
deriving Repr

/-- The classes of a source file, in the order of their keywords. -/
structure SourceFile where
  classes : List ParsedClass

namespace SourceFile

/-- Reads every class that a text declares. -/
def parse (text : Text) : Except Fault SourceFile := do
  let source := Source.ofText text
  let layouts := Code.classLayouts source.masked.cells
  let classes ← layouts.mapM fun layout => do
    return { node := ← layout.read source, layout, nesting := layout.nesting layouts }
  return { classes }

def classNamed? (file : SourceFile) (name : String) : Option ParsedClass :=
  file.classes.find? fun c => c.node.name == name

end SourceFile

/-- Why a text holds no class to work on. -/
inductive ParseError where
  | noClass
  /-- The keyword at `offset` has a brace somewhere after it, but no class came of it. -/
  | unbalanced (offset : Nat)
deriving DecidableEq, Repr

namespace ParseError

def message : ParseError → String
  | .noClass => "no class declaration found"
  | .unbalanced offset => s!"class declaration at offset {offset} has unbalanced braces"

/-- The error for a text that declares no class. -/
def ofCode (code : Code) : ParseError :=
  match Code.occurrencesFrom "class".toList 0 0 code with
  | offset :: _ => if (code.drop offset).contains '{' then .unbalanced offset else .noClass
  | [] => .noClass

end ParseError

/-- The first class that a text declares. -/
def SourceFile.firstClass (file : SourceFile) (text : Text) : Except ParseError ParsedClass :=
  match file.classes with
  | c :: _ => .ok c
  | [] => .error (.ofCode text.mask.cells)

end ClassRefactor
