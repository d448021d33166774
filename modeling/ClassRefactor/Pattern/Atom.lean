import ClassRefactor.Text.Numeral
import ClassRefactor.Text.White

/-!
# Atoms of patterns

A pattern is a regular expression over Unicode text that an automaton can match. An atom is what
one character or one escape of a pattern stands for. Which atoms are allowed depends on the flags in
force: without the Unicode flag, nothing may match a part of a character.
-/

namespace ClassRefactor.Pattern

/-- The flags that decide how a pattern is read. -/
structure Flags where
  /-- White space and comments do not count. -/
  extended : Bool := false
  unicode : Bool := true
deriving DecidableEq, Repr

/-- Drops white space and comments, which end with their line. -/
def dropBlank (inComment : Bool) : Text → Text
  | [] => []
  | c :: t =>
    if inComment then dropBlank (c != '\n') t
    else if isWhite c then dropBlank false t
    else if c == '#' then dropBlank true t
    else c :: t

/-- Drops what does not count at the front of a text. -/
def Flags.skip (f : Flags) (t : Text) : Text := if f.extended then dropBlank false t else t

inductive Atom where
  /-- A character. As a byte, it is written as two hexadecimal digits. -/
  | literal (c : Char) (byte : Bool)
  | dot
  /-- Digits, white space or word characters, or all others. -/
  | kind (negated : Bool)
  /-- The characters of a general category, or all others. -/
  | category (name : Char)
  /-- A place between two characters; `atWord` tells whether it is the edge of a word. -/
  | place (atWord : Bool)
deriving DecidableEq, Repr

namespace Atom

/-- The general categories that have a name of one letter. -/
def isCategory (name : Char) : Bool := "CLMNPSZ".toList.contains name.toUpper

/-- Whether an atom may stand alone. An automaton cannot tell the edges of words beyond ASCII. -/
def mayStand (f : Flags) : Atom → Bool
  | .literal c byte => f.unicode || !byte || c.toNat < 0x80
  | .dot => f.unicode
  | .kind negated => f.unicode || !negated
  | .category name => f.unicode && isCategory name
  | .place atWord => !(atWord && f.unicode)

/-- Whether an atom may stand in a set of characters. -/
def mayBeMember (f : Flags) : Atom → Bool
  | .literal c _ => f.unicode || c.toNat < 0x80
  | .dot => false
  | .kind negated => f.unicode || !negated
  | .category name => f.unicode && isCategory name
  | .place _ => false

end Atom

/-- Reads so many hexadecimal digits. -/
def hexadecimal? (f : Flags) (value : Nat) : (count : Nat) → Text → Option (Nat × Text)
  | 0, t => some (value, t)
  | count + 1, t =>
    match f.skip t with
    | [] => none
    | c :: t => do hexadecimal? f (value * 16 + (← hexValue? c)) count t

/-- Reads a character that so many hexadecimal digits spell. -/
def hexLiteral? (f : Flags) (count : Nat) (t : Text) : Option (Atom × Text) := do
  let (value, t) ← hexadecimal? f 0 count t
  return (.literal (← scalar? value) (count == 2), t)

/-- Reads the name of a category. Names in braces are not known. -/
def category? (f : Flags) (t : Text) : Option (Atom × Text) :=
  match f.skip t with
  | [] => none
  | c :: t => if c == '{' || c == '\\' then none else some (.category c, t)

/-- The characters that stand for a control character after a backslash. -/
def control? : Char → Option Char
  | 'a' => some '\x07'
  | 'f' => some '\x0c'
  | 'n' => some '\n'
  | 'r' => some '\r'
  | 't' => some '\t'
  | 'v' => some '\x0b'
  | _ => none

/-- Whether a character may follow a backslash to stand for itself. -/
def isEscapable (c : Char) : Bool :=
  c.toNat < 0x80 && !c.isAlphanum && c != '<' && c != '>'

/-- Reads what follows a backslash. An edge of a word may not be followed by a brace. -/
def escape? (f : Flags) : Text → Option (Atom × Text)
  | [] => none
  | 'x' :: t => hexLiteral? f 2 t
  | 'u' :: t => hexLiteral? f 4 t
  | 'U' :: t => hexLiteral? f 8 t
  | c :: t =>
    if c == 'p' || c == 'P' then category? f t
    else if c == 'd' || c == 's' || c == 'w' then some (.kind false, t)
    else if c == 'D' || c == 'S' || c == 'W' then some (.kind true, t)
    else if c == 'A' || c == 'z' then some (.place false, t)
    else if c == 'b' then if t.head? == some '{' then none else some (.place true, t)
    else if c == 'B' || c == '<' || c == '>' then some (.place true, t)
    else match control? c with
      | some d => some (.literal d false, t)
      | none => if isEscapable c then some (.literal c false, t) else none

/-- Reads an atom that stands alone. -/
def atom? (f : Flags) : Text → Option (Atom × Text)
  | [] => none
  | '\\' :: t => escape? f t
  | '.' :: t => some (.dot, t)
  | '^' :: t => some (.place false, t)
  | '$' :: t => some (.place false, t)
  | c :: t => some (.literal c false, t)

/-- Reads an atom within a set. -/
def member? (f : Flags) : Text → Option (Atom × Text)
  | [] => none
  | '\\' :: t => escape? f t
  | c :: t => some (.literal c false, t)

end ClassRefactor.Pattern
