import ClassRefactor.Dependency.Candidate

/-!
# Dependency constructors

What the first constructor of a class lacks to receive and assign every dependency, the class with
that added, and a summary of both for reports.
-/

namespace ClassRefactor

/-- What is missing from the first constructor of a class. -/
structure ConstructorPlan where
  /-- The member index of the constructor to extend; a new one is appended if there is none. -/
  constructorIndex : Option Nat
  parameters : List Parameter
  assignments : List Statement
deriving Repr

namespace ConstructorPlan

/-- The parameters that candidates need beyond those of the given names. -/
def missingParameters (existing : List String) (candidates : List Candidate) : List Parameter :=
  (candidates.filter fun c => !existing.contains c.parameterName).map fun c =>
    { type := c.fieldType, name := c.parameterName }

/-- The assignments that candidates need beyond those to the given fields. -/
def missingAssignments (assigned : List String) (candidates : List Candidate) : List Statement :=
  (candidates.filter fun c => !assigned.contains c.fieldName).map fun c =>
    .assignment c.fieldName c.parameterName

/-- A plan, unless there is nothing in it. -/
def nonempty? (plan : ConstructorPlan) : Option ConstructorPlan :=
  if plan.parameters.isEmpty && plan.assignments.isEmpty then none else some plan

end ConstructorPlan

namespace ClassNode

/-- What the class lacks. There is no plan when nothing is missing, or when the first constructor
has no block to add statements to. -/
def plan? (c : ClassNode) : Option ConstructorPlan :=
  match c.firstConstructor? with
  | none =>
    ConstructorPlan.nonempty?
      { constructorIndex := none
        parameters := ConstructorPlan.missingParameters [] c.candidates
        assignments := ConstructorPlan.missingAssignments [] c.candidates }
  | some (index, ctor) =>
    match ctor.body with
    | .block statements =>
      ConstructorPlan.nonempty?
        { constructorIndex := some index
          parameters :=
            ConstructorPlan.missingParameters (ctor.parameters.map (·.name)) c.candidates
          assignments :=
            ConstructorPlan.missingAssignments (statements.filterMap Statement.target?)
              c.candidates }
    | .expression _ => none
    | .absent => none

/-- The constructor that a plan makes for a class without one. -/
def newConstructor (c : ClassNode) (plan : ConstructorPlan) : Constructor :=
  { name := c.name, modifiers := ["public"], parameters := plan.parameters
    body := .block plan.assignments }

end ClassNode

/-- A constructor with the additions of a plan. -/
def Constructor.extend (plan : ConstructorPlan) (c : Constructor) : Constructor :=
  { c with
    parameters := c.parameters ++ plan.parameters
    body := match c.body with
      | .block statements => .block (statements ++ plan.assignments)
      | .expression text => .expression text
      | .absent => .absent }

/-- A member with the additions of a plan, if it is a constructor. -/
def Member.extend (plan : ConstructorPlan) : Member → Member
  | .constructor c => .constructor (c.extend plan)
  | .field f => .field f
  | .method m => .method m
  | .other text => .other text

namespace ClassNode

/-- The class with the additions of a plan. -/
def fulfil (c : ClassNode) (plan : ConstructorPlan) : ClassNode :=
  match plan.constructorIndex with
  | none => { c with members := c.members ++ [.constructor (c.newConstructor plan)] }
  | some index => { c with members := c.members.modify index (Member.extend plan) }

/-- The class with a first constructor that receives and assigns every dependency. A cancelled
synthesis changes nothing. -/
def synthesize (cancelled : Bool) (c : ClassNode) : ClassNode :=
  if cancelled then c
  else match c.plan? with
    | none => c
    | some plan => c.fulfil plan

/-- Whether synthesis would change the class. A cancelled question is answered in the negative. -/
def isApplicable (cancelled : Bool) (c : ClassNode) : Bool :=
  !cancelled && c.plan?.isSome

end ClassNode

/-- The state of the dependencies of a class. -/
structure Analysis where
  className : String
  candidates : List Candidate
  hasConstructor : Bool
  missingParameters : List String
  unassignedFields : List String
  collisions : List Collision
deriving Repr

def Analysis.isApplicable (a : Analysis) : Bool :=
  !a.missingParameters.isEmpty || !a.unassignedFields.isEmpty

def ClassNode.analyze (c : ClassNode) : Analysis :=
  { className := c.name
    candidates := c.candidates
    hasConstructor := c.firstConstructor?.isSome
    missingParameters := c.plan?.elim [] fun plan => plan.parameters.map (·.name)
    unassignedFields := c.plan?.elim [] fun plan => plan.assignments.filterMap Statement.target?
    collisions := Candidate.collisions c.candidates }

end ClassRefactor
