import ClassRefactor.Tree.Class

/-!
# Dependencies of a class

Every variable of a read-only field is a dependency: a value to be passed to the first constructor
and assigned there. Field and parameter belong together by name.
-/

namespace ClassRefactor

/-- A dependency with the parameter it is passed by. -/
structure Candidate where
  fieldType : TypeRef
  fieldName : String
  parameterName : String
deriving DecidableEq, Repr

/-- The parameter name of a field: one leading underscore less, or one more if it has none. The
mark `@` in front is not part of the name. -/
def parameterNameOf (fieldName : String) : String :=
  let name := match fieldName.toList with
    | '@' :: rest => rest
    | name => name
  match name with
  | '_' :: rest => .ofList rest
  | name => .ofList ('_' :: name)

def Field.candidates (f : Field) : List Candidate :=
  f.declarators.map fun v => ⟨f.type, v.name, parameterNameOf v.name⟩

/-- The dependencies of a class in the order of their declaration. -/
def ClassNode.candidates (c : ClassNode) : List Candidate :=
  (c.fields.filter Field.isReadonly).flatMap Field.candidates

/-- Fields that share a parameter name. -/
structure Collision where
  parameterName : String
  fieldNames : List String
deriving DecidableEq, Repr

/-- The parameter names of some candidates, each once, in ascending order. -/
def Candidate.parameterNames (candidates : List Candidate) : List String :=
  ((candidates.map Candidate.parameterName).eraseDups).mergeSort fun a b => decide (a ≤ b)

/-- The groups of candidates that share a parameter name, in ascending order of that name. Nothing
resolves a collision: each candidate keeps its parameter. -/
def Candidate.collisions (candidates : List Candidate) : List Collision :=
  ((parameterNames candidates).map fun name =>
    ⟨name, (candidates.filter (·.parameterName == name)).map Candidate.fieldName⟩).filter
      fun group => 2 ≤ group.fieldNames.length

end ClassRefactor
