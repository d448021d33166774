import ClassRefactor.Config.FieldMatch

/-!
# Directives of a log filter

A directive gives a level to the components whose names begin with its target. It may be limited to
a span, and to what has a field.
-/

namespace ClassRefactor

/-- How much is logged, from nothing to everything. -/
inductive LogLevel where
  | off
  | error
  | warn
  | info
  | debug
  | trace
deriving DecidableEq, Repr

namespace LogLevel

def rank : LogLevel → Nat
  | .off => 0
  | .error => 1
  | .warn => 2
  | .info => 3
  | .debug => 4
  | .trace => 5

def name : LogLevel → String
  | .off => "off"
  | .error => "error"
  | .warn => "warn"
  | .info => "info"
  | .debug => "debug"
  | .trace => "trace"

def all : List LogLevel := [.off, .error, .warn, .info, .debug, .trace]

/-- The level that a word names, by its name in any case or by its number. -/
def ofWord? (t : Text) : Option LogLevel :=
  match numeral? t with
  | some n => all.find? fun l => l.rank == n
  | none => all.find? fun l => l.name.toList == t.map Char.toLower

end LogLevel

/-- Gives a level to a target. A directive with a span only applies within spans of that name. -/
structure Directive where
  target : Option String := none
  span : Option String := none
  field : Option FieldMatch := none
  level : LogLevel := .trace
deriving DecidableEq, Repr

/-- Why the reading of a directive ends without one. -/
inductive DirectiveFault where
  | malformed
  /-- A part would begin or end within a character. -/
  | brokenCharacter
deriving DecidableEq, Repr

namespace Directive

/-- Where the reading of a directive stands; the numbers are offsets at which a part begins. -/
inductive State where
  | start
  | levelOrTarget (start : Nat)
  | span (start : Nat)
  | field (start : Nat)
  | fields
  | target
  | level (start : Nat)
deriving DecidableEq, Repr

/-- Whether a directive may begin with a character. -/
def mayBegin (c : Char) : Bool := c == '-' || c == ':' || c == '_' || isAlphanumeric c

/-- A part of a directive between two offsets. -/
def part (raw : Text) (start stop : Nat) : Except DirectiveFault Text :=
  match raw.cut? start stop with
  | some t => .ok t
  | none => .error .brokenCharacter

/-- The field that a text asks for. -/
def fieldOf (t : Text) : Except DirectiveFault FieldMatch :=
  if t.isEmpty then .error .malformed
  else match FieldMatch.read? t with
    | some f => .ok f
    | none => .error .malformed

/-- The level that a text names; without a text, everything is logged. -/
def levelOf (t : Text) : Except DirectiveFault LogLevel :=
  if t.isEmpty then .ok .trace
  else match LogLevel.ofWord? t with
    | some level => .ok level
    | none => .error .malformed

/-- Reads the character at offset `i` of a directive whose whole text is `raw`. -/
def step (raw : Text) (d : Directive) (s : State) (i : Nat) (c : Char) :
    Except DirectiveFault (Directive × State) :=
  match s with
  | .start =>
    if c == '[' then .ok (d, .span (i + 1))
    else if mayBegin c then .ok (d, .levelOrTarget i)
    else .error .malformed
  | .levelOrTarget start =>
    if c == '=' || c == '[' then do
      let target : String := .ofList (← part raw start i)
      return ({ d with target }, if c == '=' then .level (i + 1) else .span (i + 1))
    else .ok (d, .levelOrTarget start)
  | .target => if c == '=' then .ok (d, .level (i + 1)) else .error .malformed
  | .span start =>
    if c == ']' then do
      let span : String := .ofList (← part raw start i)
      return ({ d with span }, .target)
    else if c == '{' then do
      let span ← part raw start i
      return ({ d with span := if span.isEmpty then none else some (.ofList span) }, .field (i + 1))
    else .ok (d, .span start)
  | .field start =>
    if c == '}' then do
      let field ← fieldOf (← part raw start i)
      return ({ d with field }, .fields)
    else .ok (d, .field start)
  | .fields => if c == ']' then .ok (d, .target) else .error .malformed
  | .level start => .ok (d, .level start)

/-- The directive at the end of its text. A word that names no level is a target. -/
def finish (raw : Text) (d : Directive) : State → Except DirectiveFault Directive
  | .levelOrTarget start => do
    let word ← part raw start raw.size
    match LogLevel.ofWord? word with
    | some level => return { d with level }
    | none => return { d with target := some (.ofList word) }
  | .level start => do
    let level ← levelOf (← part raw start raw.size)
    return { d with level }
  | .target => .ok d
  | _ => .error .malformed

/-- Reads the rest of a directive from offset `i` on. -/
def parseFrom (raw : Text) (d : Directive) (s : State) (i : Nat) :
    Text → Except DirectiveFault Directive
  | [] => finish raw d s
  | c :: t => do
    let (d, s) ← step raw d s i c
    parseFrom raw d s (i + c.utf8Size) t

/-- Reads a directive. White space around it is not read, but it counts for the offsets of the
parts. -/
def parse (raw : Text) : Except DirectiveFault Directive := parseFrom raw {} .start 0 raw.trim

/-- Whether a directive concerns a span or a field. -/
def isDynamic (d : Directive) : Bool := d.span.isSome || d.field.isSome

/-- Whether a directive applies outside of spans: it names none, and asks for no field's value. -/
def isStatic (d : Directive) : Bool := d.span.isNone && d.field.all fun f => f.value.isNone

def render (d : Directive) : String :=
  let field := d.field.elim "" fun f => "\x7b" ++ f.render ++ "\x7d"
  let scope := if d.isDynamic then "[" ++ d.span.getD "" ++ field ++ "]" else ""
  let lead := d.target.getD "" ++ scope
  (if d.target.isNone && scope.isEmpty then "" else lead ++ "=") ++ d.level.name

/-- How specific a directive is: by the length of its target, then whether it has a span and whether
it has a field, and then by the parts themselves. -/
def specificity (a b : Directive) : Ordering :=
  let size := fun (a b : String) => compare a.utf8ByteSize b.utf8ByteSize
  (optionOrder size a.target b.target).then <|
    (compare a.span.isSome b.span.isSome).then <|
      (compare a.field.isSome b.field.isSome).then <|
        (optionOrder compare a.target b.target).then <|
          (optionOrder compare a.span b.span).then (optionOrder FieldMatch.order a.field b.field)

/-- Whether a directive without a span concerns an event of a component with some fields. -/
def concerns (d : Directive) (component : String) (fields : List String) : Bool :=
  d.target.all (fun t => t.toList.isPrefixOf component.toList) &&
    d.field.all fun f => fields.contains f.name

end Directive

end ClassRefactor
