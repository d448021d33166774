import ClassRefactor.Action.Refactor

/-!
# Refactorings on offer

What an editor may propose at a cursor.
-/

namespace ClassRefactor

inductive ActionKind where
  | resolveDependencies
  | convertToSync
  | convertToAsync
deriving DecidableEq, Repr

def ActionKind.title : ActionKind → String
  | .resolveDependencies => "Resolve unassigned dependencies"
  | .convertToSync => "Convert to synchronous method"
  | .convertToAsync => "Convert to asynchronous method"

/-- The name of a kind in reports. -/
def ActionKind.key : ActionKind → String
  | .resolveDependencies => "resolve_unassigned_dependencies"
  | .convertToSync => "convert_to_sync"
  | .convertToAsync => "convert_to_async"

/-- A refactoring on offer, with the name of the class or method that it would change. -/
structure Action where
  kind : ActionKind
  target : String
deriving DecidableEq, Repr

/-- The action that changes the mode of a method. -/
def Action.toggle (m : Method) : Action :=
  match m.mode with
  | .async => ⟨.convertToSync, m.name⟩
  | .sync => ⟨.convertToAsync, m.name⟩

namespace SourceFile

/-- The offer for the class that a cursor is on. -/
def classActions (file : SourceFile) (cancelled : Bool) (offset : Nat) : List Action :=
  match file.classAt? offset with
  | some c => if c.node.isApplicable cancelled then [⟨.resolveDependencies, c.node.name⟩] else []
  | none => []

/-- The offer for the method that a cursor is on. -/
def methodActions (file : SourceFile) (offset : Nat) : List Action :=
  match file.methodAt? offset with
  | some (c, index) => ((c.node.members[index]?.bind Member.method?).map Action.toggle).toList
  | none => []

/-- The refactorings on offer at a cursor. A cancelled request offers none. -/
def actionsAt (file : SourceFile) (cancelled : Bool) (offset : Nat) : List Action :=
  if cancelled then [] else file.classActions cancelled offset ++ file.methodActions offset

end SourceFile

end ClassRefactor
