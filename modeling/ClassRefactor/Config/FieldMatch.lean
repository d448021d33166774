import ClassRefactor.Number.Double
import ClassRefactor.Pattern.Basic

/-!
# Conditions on fields

A directive of a log filter may ask for a field, or for a field with a value. Values are compared as
what they spell: truth values, numbers, and otherwise patterns.
-/

namespace ClassRefactor

/-- The value that a field has to have. -/
inductive FieldValue where
  | truth (b : Bool)
  | float (x : Double)
  | natural (n : Nat)
  | integer (n : Int)
  | pattern (text : String)
deriving DecidableEq, Repr

namespace FieldValue

/-- Reads a number: a whole one of 64 bits, or else a float. -/
def number? (t : Text) : Option FieldValue :=
  match (numeral? t).filter (· < UInt64.size), signedNumeral? t with
  | some n, _ => some (.natural n)
  | none, some n =>
    if Int64.minValue.toInt ≤ n && n ≤ Int64.maxValue.toInt then some (.integer n)
    else (Double.read? t).map .float
  | none, none => (Double.read? t).map .float

/-- Reads a value. What spells no truth value and no number has to be a pattern. -/
def read? (t : Text) : Option FieldValue :=
  if t == "true".toList then some (.truth true)
  else if t == "false".toList then some (.truth false)
  else match number? t with
    | some v => some v
    | none => if Pattern.isValid t then some (.pattern (.ofList t)) else none

def render : FieldValue → String
  | .truth b => if b then "true" else "false"
  | .float x => x.render
  | .natural n => toString n
  | .integer n => toString n
  | .pattern text => text

/-- Values of different kinds are in the order of their kinds. -/
def kind : FieldValue → Nat
  | .truth _ => 0
  | .float _ => 1
  | .natural _ => 2
  | .integer _ => 3
  | .pattern _ => 4

def order : FieldValue → FieldValue → Ordering
  | .truth a, .truth b => compare a b
  | .float x, .float y => x.order y
  | .natural a, .natural b => compare a b
  | .integer a, .integer b => compare a b
  | .pattern a, .pattern b => compare a b
  | a, b => compare a.kind b.kind

end FieldValue

/-- A missing thing comes before every thing. -/
def optionOrder {α : Type} (order : α → α → Ordering) : Option α → Option α → Ordering
  | none, none => .eq
  | none, some _ => .lt
  | some _, none => .gt
  | some a, some b => order a b

/-- A field that has to be there, perhaps with a value. -/
structure FieldMatch where
  name : String
  value : Option FieldValue := none
deriving DecidableEq, Repr

namespace FieldMatch

/-- Reads a name, and a value after an equals sign. A second equals sign ends the value, and what
follows it does not count. -/
def read? (t : Text) : Option FieldMatch :=
  let isEquals := fun c => c == '='
  let name : String := .ofList (t.takeWhile fun c => !isEquals c)
  match t.dropWhile fun c => !isEquals c with
  | [] => some { name }
  | _ :: rest =>
    (FieldValue.read? (rest.takeWhile fun c => !isEquals c)).map fun v => ⟨name, some v⟩

def render (f : FieldMatch) : String :=
  f.name ++ f.value.elim "" fun v => "=" ++ v.render

/-- Fields with a value come after those without, then the names decide, then the values. -/
def order (a b : FieldMatch) : Ordering :=
  (compare a.value.isSome b.value.isSome).then <|
    (compare a.name b.name).then (optionOrder FieldValue.order a.value b.value)

end FieldMatch

end ClassRefactor
