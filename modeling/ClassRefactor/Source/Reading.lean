import ClassRefactor.Code.Mode
import ClassRefactor.Layout.Basic
import ClassRefactor.Text.Letter
import ClassRefactor.Tree.Class

/-!
# Reading a layout

A layout is turned into a tree by reading the source at its ranges. Each range is checked on the
way: its ends must be in order and fall between characters. A range that fails the check is a fault.
-/

namespace ClassRefactor

/-- A range that does not fit the text it is meant for. -/
inductive Fault where
  /-- The range ends before it starts. -/
  | disorder (start stop : Nat)
  /-- An end of the range lies within a character or past the end of the text. -/
  | offBoundary (start stop : Nat)
deriving DecidableEq, Repr

/-- Checks that a range ends no sooner than it starts. -/
def Range.checked (r : Range) : Except Fault Range :=
  if r.start ≤ r.stop then .ok r else .error (.disorder r.start r.stop)

/-- The text in a range whose ends are in order and on boundaries. -/
def Text.read (t : Text) (r : Range) : Except Fault Text :=
  if r.stop < r.start then .error (.disorder r.start r.stop)
  else if t.isBoundary r.start && t.isBoundary r.stop then .ok (t.slice r.start r.stop)
  else .error (.offBoundary r.start r.stop)

/-- A source text with its masked form. -/
structure Source where
  text : Text
  masked : Text

namespace Source

def ofText (text : Text) : Source := { text, masked := text.mask }

/-- A name stands in code, where source and masked text agree. -/
def name (s : Source) (r : Range) : Except Fault String := do
  return .ofList (← s.masked.read r)

def type (s : Source) (r : Range) : Except Fault TypeRef := do
  return TypeRef.parse (← s.text.read r)

def verbatim (s : Source) (r : Range) : Except Fault String := do
  return .ofList (← s.text.read r)

def opaqueText (s : Source) (r : Range) : Except Fault OpaqueText := do
  return .ofText (← s.text.read r)

/-- The trimmed text of a range, if any is left. -/
def clause (s : Source) (r : Range) : Except Fault (Option OpaqueText) := do
  let t := (← s.text.read r).trim
  return if t.isEmpty then none else some (.ofText t)

/-- Reads an optional part. -/
def optional {α : Type} (read : Range → Except Fault α) : Option Range → Except Fault (Option α)
  | none => .ok none
  | some r => (read r).map some

end Source

namespace Statement

/-- Words that are no names, so that an assignment from or to them is not understood. -/
def literalKeywords : List String := ["null", "true", "false", "this", "base", "default", "new"]

/-- Splits an identifier from the front of a text: an optional `@`, a letter or underscore, then
letters, numbers and underscores. -/
def splitIdent? (t : Text) : Option (Text × Text) :=
  let (mark, t) := match t with
    | '@' :: rest => (['@'], rest)
    | t => ([], t)
  match t with
  | [] => none
  | c :: rest =>
    if isLetter c || c == '_' then
      let belongs := fun c => isLetter c || isNumber c || c == '_'
      some (mark ++ c :: rest.takeWhile belongs, rest.dropWhile belongs)
    else none

/-- The names on the two sides of a text of the form `a = b;`. -/
def assignmentNames? (t : Text) : Option (String × String) := do
  let (target, rest) ← splitIdent? t
  match Text.trimStart rest with
  | '=' :: rest =>
    let (value, rest) ← splitIdent? (Text.trimStart rest)
    if Text.trimStart rest == [';'] then some (.ofList target, .ofList value) else none
  | _ => none

/-- The statement that a text spells, given the masked form of the same text. A comment within
keeps a statement from being read as an assignment. -/
def ofText (text masked : Text) : Statement :=
  match if masked.trim == text.trim then assignmentNames? text.trim else none with
  | some (target, value) =>
    if literalKeywords.contains target || literalKeywords.contains value then .other (.ofText text)
    else .assignment target value
  | none => .other (.ofText text)

/-- Reads the statement in a range. -/
def read (s : Source) (r : Range) : Except Fault Statement := do
  return ofText (← s.text.read r) (← s.masked.read r)

end Statement

/-- The constructor call after the colon that a tail begins with. -/
def OpaqueText.initializer? (tail : Text) : Option OpaqueText :=
  match tail.trim with
  | ':' :: rest => if (Text.trim rest).isEmpty then none else some (.ofText rest)
  | _ => none

def VariableLayout.read (s : Source) (v : VariableLayout) : Except Fault FieldVariable := do
  return { name := ← s.name v.name, initializer := ← Source.optional s.opaqueText v.initializer }

def FieldLayout.read (s : Source) (f : FieldLayout) : Except Fault Field := do
  return { modifiers := f.modifiers, type := ← s.type f.type
           declarators := ← f.declarators.mapM (VariableLayout.read s) }

def ParameterLayout.read (s : Source) (p : ParameterLayout) : Except Fault Parameter := do
  let _ ← p.range.checked
  return { modifiers := p.modifiers, type := ← s.type p.type, name := ← s.name p.name
           default := ← Source.optional s.opaqueText p.default }

def BodyLayout.read (s : Source) : BodyLayout → Except Fault Body
  | .block b => return .block (← b.statements.mapM (Statement.read s))
  | .expression r => return .expression (← s.opaqueText r)
  | .absent => return .absent

namespace CallableLayout

def readConstructor (s : Source) (c : CallableLayout) : Except Fault Constructor := do
  let _ ← c.lead.checked
  return { name := ← s.name c.name, modifiers := c.modifiers
           parameters := ← c.params.mapM (ParameterLayout.read s)
           initializer := OpaqueText.initializer? (← s.text.read c.tail)
           body := ← c.body.read s }

def readMethod (s : Source) (c : CallableLayout) : Except Fault Method := do
  let _ ← c.lead.checked
  return { name := ← s.name c.name, typeParams := ← Source.optional s.verbatim c.typeParams
           modifiers := c.modifiers, returnType := ← s.type c.result
           parameters := ← c.params.mapM (ParameterLayout.read s)
           constraints := ← s.clause c.tail
           body := ← c.body.read s }

end CallableLayout

def MemberLayout.read (s : Source) (m : MemberLayout) : Except Fault Member := do
  let _ ← m.range.checked
  let _ ← m.signature.checked
  match m.shape with
  | .field f => return .field (← f.read s)
  | .constructor c => return .constructor (← c.readConstructor s)
  | .method c => return .method (← c.readMethod s)
  | .other => return .other (← s.opaqueText m.range)

def ClassLayout.read (s : Source) (c : ClassLayout) : Except Fault ClassNode := do
  let _ ← c.range.checked
  let _ ← c.header.checked
  return { name := ← s.name c.name, typeParams := ← Source.optional s.verbatim c.typeParams
           modifiers := c.modifiers, bases := ← s.clause c.tail
           members := ← c.members.mapM (MemberLayout.read s) }

end ClassRefactor
