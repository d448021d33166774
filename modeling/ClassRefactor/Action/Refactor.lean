import ClassRefactor.Dependency.Plan
import ClassRefactor.Edit.Workspace
import ClassRefactor.Method.Mode
import ClassRefactor.Splice.Class

/-!
# Refactorings

The two refactorings of a class, as edits of its file: giving it a constructor for its dependencies,
and converting one of its methods. A cursor selects the class or the method to work on.
-/

namespace ClassRefactor

/-- Why a refactoring has no result. -/
inductive RefactorError where
  | noClassAtPosition
  | noMethodAtPosition
  | notApplicable
  | cancelled
  | edit (error : EditError)
deriving DecidableEq, Repr

def RefactorError.message : RefactorError → String
  | .noClassAtPosition => "no class declaration or constructor found at the requested position"
  | .noMethodAtPosition => "no method declaration found at the requested position"
  | .notApplicable => "the refactoring does not apply here"
  | .cancelled => "the refactoring was cancelled"
  | .edit error => error.message

/-- The last of the elements with the greatest key. -/
def lastMax? {α : Type} (key : α → Nat) : List α → Option α
  | [] => none
  | a :: rest =>
    match lastMax? key rest with
    | none => some a
    | some b => if key a ≤ key b then some b else some a

namespace ParsedClass

/-- Normalized edits that turn a class into another tree. -/
def editTo (c : ParsedClass) (file : String) (text : Text) (new : ClassNode) :
    Except RefactorError WorkspaceEdit :=
  let edits := (c.splice text new).map fun r => ⟨file, r.range, r.text⟩
  (WorkspaceEdit.normalized { edits }).mapError .edit

/-- Gives a class the constructor that its dependencies need. -/
def resolve (c : ParsedClass) (cancelled : Bool) (file : String) (text : Text) :
    Except RefactorError WorkspaceEdit :=
  if cancelled then .error .cancelled
  else if !c.node.isApplicable cancelled then .error .notApplicable
  else c.editTo file text (c.node.synthesize cancelled)

/-- Converts the method at a member index. -/
def convertMethod (c : ParsedClass) (cancelled : Bool) (file : String) (text : Text) (index : Nat)
    (target : MethodMode) : Except RefactorError WorkspaceEdit :=
  if cancelled then .error .cancelled
  else match c.node.members[index]? with
    | some (.method m) =>
      if m.mode == target then .error .notApplicable
      else
        c.editTo file text
          { c.node with members := c.node.members.set index (.method (m.convert cancelled target)) }
    | _ => .error .noMethodAtPosition

/-- Whether a cursor is on the header of a class or on the signature of a constructor of it. -/
def isAt (c : ParsedClass) (offset : Nat) : Bool :=
  c.layout.header.touches offset ||
    (c.node.members.zip c.layout.members).any fun (member, layout) =>
      member.constructor?.isSome && layout.signature.touches offset

/-- The member index of the first method whose signature a cursor is on. -/
def methodAt? (c : ParsedClass) (offset : Nat) : Option Nat :=
  (c.node.members.zip c.layout.members).findIdx? fun (member, layout) =>
    member.method?.isSome && layout.signature.touches offset

end ParsedClass

namespace SourceFile

/-- The innermost class that a cursor is on, the last of several. -/
def classAt? (file : SourceFile) (offset : Nat) : Option ParsedClass :=
  lastMax? ParsedClass.nesting (file.classes.filter (·.isAt offset))

/-- The method that a cursor is on, in the innermost class that has one there. -/
def methodAt? (file : SourceFile) (offset : Nat) : Option (ParsedClass × Nat) :=
  lastMax? (fun p => p.1.nesting)
    (file.classes.filterMap fun c => (c.methodAt? offset).map fun index => (c, index))

/-- Resolves the dependencies of the class that a cursor is on. -/
def resolveAt (file : SourceFile) (cancelled : Bool) (name : String) (text : Text) (offset : Nat) :
    Except RefactorError WorkspaceEdit :=
  match file.classAt? offset with
  | none => .error .noClassAtPosition
  | some c => c.resolve cancelled name text

/-- The edits of every class that needs a constructor, one class after another. -/
def resolutionEdits (name : String) (text : Text) :
    List ParsedClass → Except RefactorError (List TextEdit)
  | [] => .ok []
  | c :: rest =>
    match c.resolve false name text with
    | .ok w => (resolutionEdits name text rest).map (w.edits ++ ·)
    | .error .notApplicable => resolutionEdits name text rest
    | .error e => .error e

/-- Resolves the dependencies of every class that needs it. -/
def resolveEvery (file : SourceFile) (name : String) (text : Text) :
    Except RefactorError WorkspaceEdit := do
  let edits ← resolutionEdits name text file.classes
  if edits.isEmpty then .error .notApplicable
  else (WorkspaceEdit.normalized { edits }).mapError .edit

/-- The methods of a name, with their classes and member indices, in all classes or in those of a
given name. -/
def methodsNamed (file : SourceFile) (className : Option String) (name : String) :
    List (ParsedClass × Nat) :=
  (file.classes.filter fun c => className.all (c.node.name == ·)).flatMap fun c =>
    (c.node.methods.filter fun (_, m) => m.name == name).map fun (index, _) => (c, index)

/-- Converts the method that a cursor is on. -/
def convertAt (file : SourceFile) (cancelled : Bool) (name : String) (text : Text) (offset : Nat)
    (target : MethodMode) : Except RefactorError WorkspaceEdit :=
  match file.methodAt? offset with
  | none => .error .noMethodAtPosition
  | some (c, index) => c.convertMethod cancelled name text index target

end SourceFile

end ClassRefactor
