import ClassRefactor.Action.Offer
import ClassRefactor.Journal.Event
import ClassRefactor.Text.Quoted

/-!
# Events of refactorings

What each step of a refactoring records. The events follow from the same trees as the results, so
the steps themselves stay free of them.
-/

namespace ClassRefactor

/-- A source file was read. -/
def SourceFile.readingEvents (file : SourceFile) : List Event :=
  [⟨.reading, .trace, "parsed source", [("classes", .number file.classes.length)]⟩]

/-- A collision as details of an event: the parameter and its fields. -/
def Collision.details (c : Collision) : List (String × JsonValue) :=
  [("parameter", .text c.parameterName), ("fields", .text (quotedList c.fieldNames))]

namespace ClassNode

/-- Making a plan records that a constructor cannot be extended. -/
def planEvents (c : ClassNode) : List Event :=
  match c.firstConstructor? with
  | some (_, { body := .block _, .. }) => []
  | some _ =>
    [⟨.synthesis, .debug, "first constructor has no block body; nothing to extend",
      [("class", .text c.name)]⟩]
  | none => []

/-- Following a plan records the collisions and what is added. -/
def synthesisEvents (c : ClassNode) (plan : ConstructorPlan) : List Event :=
  (Candidate.collisions c.candidates).map (fun collision =>
    ⟨.synthesis, .warn, "several read-only fields map to the same constructor parameter",
      ("class", .text c.name) :: collision.details⟩) ++
  [⟨.synthesis, .debug, "synthesizing dependency constructor",
    [("class", .text c.name), ("new_constructor", .boolean plan.constructorIndex.isNone),
      ("parameters", .number plan.parameters.length),
      ("assignments", .number plan.assignments.length)]⟩]

/-- Resolving the dependencies of a class. -/
def resolutionEvents (c : ClassNode) : List Event :=
  c.planEvents ++ c.plan?.elim [] c.synthesisEvents

end ClassNode

/-- Converting a method, unless it has the mode already. -/
def Method.conversionEvents (m : Method) (target : MethodMode) : List Event :=
  if m.mode == target then []
  else
    [⟨.conversion, .debug, "converting method",
      [("method", .text m.name), ("to", .text target.name),
        ("return_type", .text m.returnType.render)]⟩]

namespace ParsedClass

/-- Converting the method at a member index. -/
def conversionEvents (c : ParsedClass) (index : Nat) (target : MethodMode) : List Event :=
  match c.node.members[index]? with
  | some (.method m) => m.conversionEvents target
  | _ => []

end ParsedClass

namespace SourceFile

/-- Resolving the dependencies of the class that a cursor is on. -/
def resolutionEventsAt (file : SourceFile) (offset : Nat) : List Event :=
  (file.classAt? offset).elim [] fun c => c.node.resolutionEvents

/-- Converting the method that a cursor is on. -/
def conversionEventsAt (file : SourceFile) (offset : Nat) (target : MethodMode) : List Event :=
  (file.methodAt? offset).elim [] fun (c, index) => c.conversionEvents index target

/-- Offering refactorings at a cursor. -/
def offerEvents (file : SourceFile) (offset : Nat) : List Event :=
  ((file.classAt? offset).elim [] fun c => c.node.planEvents) ++
    [⟨.offering, .debug, "computed code actions",
      [("offset", .number offset), ("actions", .number (file.actionsAt false offset).length)]⟩]

end SourceFile

end ClassRefactor
