import ClassRefactor.Text.Range

/-!
# Layouts

A layout says where the parts of a declaration stand in the source. It is found in masked code
alone, so comments and the contents of literals have no influence on it.
-/

namespace ClassRefactor

/-- Where a variable of a field declaration stands. -/
structure VariableLayout where
  name : Range
  initializer : Option Range
deriving DecidableEq, Repr

structure FieldLayout where
  modifiers : List String
  type : Range
  declarators : List VariableLayout
deriving DecidableEq, Repr

structure ParameterLayout where
  /-- The whole parameter, attributes included. -/
  range : Range
  modifiers : List String
  type : Range
  name : Range
  default : Option Range
deriving DecidableEq, Repr

/-- A block with the positions of its braces. -/
structure BlockLayout where
  opening : Nat
  closing : Nat
  statements : List Range
deriving DecidableEq, Repr

inductive BodyLayout where
  | block (block : BlockLayout)
  | expression (range : Range)
  | absent
deriving DecidableEq, Repr

/-- What constructors and methods have in common. -/
structure CallableLayout where
  /-- Modifiers and return type, up to the name. -/
  lead : Range
  modifiers : List String
  /-- What stands between the modifiers and the name; blank for a constructor. -/
  result : Range
  name : Range
  typeParams : Option Range
  /-- The positions of the parentheses around the parameters. -/
  opening : Nat
  closing : Nat
  params : List ParameterLayout
  /-- What stands between the parameters and the body. -/
  tail : Range
  body : BodyLayout
deriving DecidableEq, Repr

inductive MemberShape where
  | field (field : FieldLayout)
  | constructor (callable : CallableLayout)
  | method (callable : CallableLayout)
  | other
deriving DecidableEq, Repr

structure MemberLayout where
  /-- The member without blanks and comments around it. -/
  range : Range
  /-- Modifiers, type, name and parameters; neither attributes nor body. -/
  signature : Range
  shape : MemberShape
deriving DecidableEq, Repr

structure ClassLayout where
  /-- From the first attribute or modifier through the closing brace. -/
  range : Range
  /-- From the first attribute or modifier up to the opening brace. -/
  header : Range
  modifiers : List String
  name : Range
  typeParams : Option Range
  /-- The base list and constraints, between the name and the body. -/
  tail : Range
  /-- The positions of the braces around the body. -/
  opening : Nat
  closing : Nat
  members : List MemberLayout
deriving DecidableEq, Repr

/-- The block of a body, if it is one. -/
def BodyLayout.block? : BodyLayout → Option BlockLayout
  | .block b => some b
  | .expression _ => none
  | .absent => none

/-- The parts of a constructor or method. -/
def MemberShape.callable? : MemberShape → Option CallableLayout
  | .constructor c => some c
  | .method c => some c
  | .field _ => none
  | .other => none

end ClassRefactor
