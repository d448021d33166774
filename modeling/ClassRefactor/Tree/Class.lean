import ClassRefactor.Tree.Opaque
import ClassRefactor.Tree.TypeRef

/-!
# The class tree

What a class declares, without positions, comments or formatting. Trees are compared with `==`,
which ignores white space in the parts that are kept as opaque text.
-/

namespace ClassRefactor

/-- A parameter of a constructor or method. -/
structure Parameter where
  /-- Words such as `ref`, `out` and `params` in front of the type. -/
  modifiers : List String := []
  type : TypeRef
  name : String
  default : Option OpaqueText := none
deriving BEq, Repr, Inhabited

/-- A statement of a block. Only an assignment of one name to another is understood. -/
inductive Statement where
  | assignment (target value : String)
  | other (text : OpaqueText)
deriving BEq, Repr, Inhabited

/-- The body of a constructor or method. -/
inductive Body where
  | block (statements : List Statement)
  /-- The expression after `=>`. -/
  | expression (text : OpaqueText)
  /-- Only a `;`, as in an abstract declaration. -/
  | absent
deriving BEq, Repr, Inhabited

/-- One variable of a field declaration. -/
structure FieldVariable where
  name : String
  initializer : Option OpaqueText := none
deriving BEq, Repr, Inhabited

/-- A field declaration. Several declarators may share its modifiers and type. -/
structure Field where
  modifiers : List String
  type : TypeRef
  declarators : List FieldVariable
deriving BEq, Repr, Inhabited

structure Constructor where
  name : String
  modifiers : List String
  parameters : List Parameter
  /-- The call of another constructor after the colon. -/
  initializer : Option OpaqueText := none
  body : Body
deriving BEq, Repr, Inhabited

structure Method where
  name : String
  /-- The type parameters with their angle brackets. -/
  typeParams : Option String := none
  modifiers : List String
  returnType : TypeRef
  parameters : List Parameter
  /-- The constraints on type parameters. -/
  constraints : Option OpaqueText := none
  body : Body
deriving BEq, Repr, Inhabited

/-- A member of a class. Properties, events, nested types and the like are kept as text. -/
inductive Member where
  | field (field : Field)
  | constructor (constructor : Constructor)
  | method (method : Method)
  | other (text : OpaqueText)
deriving BEq, Repr, Inhabited

/-- A class declaration. -/
structure ClassNode where
  name : String
  typeParams : Option String := none
  modifiers : List String := []
  /-- The base list and the constraints after it. -/
  bases : Option OpaqueText := none
  members : List Member := []
deriving BEq, Repr, Inhabited

/-- The name that an assignment writes to. -/
def Statement.target? : Statement → Option String
  | .assignment target _ => some target
  | .other _ => none

/-- The statements of a block; other bodies have none. -/
def Body.statements : Body → List Statement
  | .block statements => statements
  | .expression _ => []
  | .absent => []

def Field.isReadonly (f : Field) : Bool := f.modifiers.contains "readonly"

def Method.isAsync (m : Method) : Bool := m.modifiers.contains "async"

def Member.field? : Member → Option Field
  | .field f => some f
  | _ => none

def Member.constructor? : Member → Option Constructor
  | .constructor c => some c
  | _ => none

def Member.method? : Member → Option Method
  | .method m => some m
  | _ => none

namespace ClassNode

def fields (c : ClassNode) : List Field := c.members.filterMap Member.field?

/-- The first constructor of a list of members with its index, counted from `index`. -/
def firstConstructorFrom (index : Nat) : List Member → Option (Nat × Constructor)
  | [] => none
  | m :: rest =>
    match m.constructor? with
    | some c => some (index, c)
    | none => firstConstructorFrom (index + 1) rest

/-- The first constructor of a class with the index of its member. -/
def firstConstructor? (c : ClassNode) : Option (Nat × Constructor) :=
  firstConstructorFrom 0 c.members

/-- The methods of a class with the indices of their members. -/
def methods (c : ClassNode) : List (Nat × Method) :=
  c.members.zipIdx.filterMap fun (m, index) => m.method?.map fun method => (index, method)

end ClassNode

end ClassRefactor
