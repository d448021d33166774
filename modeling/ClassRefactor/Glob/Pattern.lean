import ClassRefactor.Text.Quoted

/-!
# Glob patterns

A pattern is read into tokens. A star matches any bytes, slashes included. Two stars between slashes
stand for any number of whole directories, and mean the same as one star elsewhere. Braces hold
alternatives, brackets a set of bytes, and a backslash makes the next character plain.
-/

namespace ClassRefactor.Glob

inductive Token where
  | literal (c : Char)
  /-- Any one byte. -/
  | any
  /-- Any bytes. -/
  | star
  /-- Nothing, a slash, or directories with a slash after them. -/
  | leading
  /-- A slash and anything after it. -/
  | trailing
  /-- A slash, or directories between two slashes. -/
  | between
  /-- One byte of the given ranges of characters, or of none of them. -/
  | oneOf (negated : Bool) (ranges : List (Char × Char))
  | alternatives (branches : List (List Token))
deriving Repr, Inhabited

/-- What is wrong with a pattern. -/
inductive Flaw where
  | unclosedClass
  | invalidRange (first last : Char)
  | unopenedAlternatives
  | unclosedAlternatives
  | danglingEscape
deriving DecidableEq, Repr

def Flaw.message : Flaw → String
  | .unclosedClass => "unclosed character class; missing ']'"
  | .invalidRange first last =>
    .ofList ("invalid range; '".toList ++ first :: "' > '".toList ++ [last, '\''])
  | .unopenedAlternatives =>
    "unopened alternate group; missing '\x7b' (maybe escape '\x7d' with '[\x7d]'?)"
  | .unclosedAlternatives =>
    "unclosed alternate group; missing '\x7d' (maybe escape '\x7b' with '[\x7b]'?)"
  | .danglingEscape => "dangling '\\'"

/-- A set of characters that is being read: its ranges, last first. -/
structure ClassState where
  negated : Bool := false
  ranges : List (Char × Char) := []
  /-- Nothing but the negation has been read. -/
  first : Bool := true
  /-- A dash waits for the upper end of its range. -/
  inRange : Bool := false

/-- The set when its bracket closes. A dash that waits for nothing is a plain one. -/
def ClassState.token (s : ClassState) : Token :=
  .oneOf s.negated (if s.inRange then ('-', '-') :: s.ranges else s.ranges).reverse

/-- Adds a character to a set. -/
def ClassState.add (s : ClassState) (c : Char) : Except Flaw ClassState :=
  if s.inRange then
    match s.ranges with
    | [] => .ok { s with ranges := [(c, c)], first := false, inRange := false }
    | (low, _) :: rest =>
      if c < low then .error (.invalidRange low c)
      else .ok { s with ranges := (low, c) :: rest, first := false, inRange := false }
  else if c == '-' && !s.first then .ok { s with inRange := true }
  else .ok { s with ranges := (c, c) :: s.ranges, first := false }

/-- A group of alternatives that is being read: its finished branches and the tokens before it, both
last first. -/
structure Group where
  branches : List (List Token)
  outer : List Token

/-- The state of reading a pattern: the tokens of the current branch, last first, the groups around
it, the character before, and the set being read if there is one. -/
structure State where
  tokens : List Token := []
  groups : List Group := []
  previous : Option Char := none
  set : Option ClassState := none

namespace State

def push (s : State) (t : Token) : State := { s with tokens := t :: s.tokens }

/-- Two stars that do not stand for directories. -/
def pushStars (s : State) : State := (s.push .star).push .star

/-- Puts a token for directories in place of the slash before it. One that is there already, at the
front or at the end, stays. -/
def replaceLast (s : State) (t : Token) : State :=
  match s.tokens with
  | .leading :: _ => s
  | .trailing :: _ => s
  | _ :: rest => { s with tokens := t :: rest }
  | [] => s.push t

/-- Reads two stars; `rest` is what follows them. The answer tells whether a slash after them is
read too. -/
def doubleStar (s : State) (rest : Text) : State × Bool :=
  let next := rest.head?
  if s.tokens.isEmpty then
    if next.isNone || next == some '/' then (s.push .leading, next.isSome) else (s.pushStars, false)
  else if s.previous != some '/' &&
      (s.groups.isEmpty || (s.previous != some ',' && s.previous != some '{')) then
    (s.pushStars, false)
  else if next.isNone || (!s.groups.isEmpty && (next == some ',' || next == some '}')) then
    (s.replaceLast .trailing, false)
  else if next == some '/' then (s.replaceLast .between, true)
  else (s.pushStars, false)

/-- Reads a comma, which separates branches inside a group. -/
def comma (s : State) : State :=
  match s.groups with
  | [] => s.push (.literal ',')
  | g :: rest =>
    { s with tokens := [], groups := { g with branches := s.tokens.reverse :: g.branches } :: rest }

/-- Reads the brace that closes a group. -/
def closeGroup (s : State) : Except Flaw State :=
  match s.groups with
  | [] => .error .unopenedAlternatives
  | g :: rest =>
    .ok { s with
      tokens := .alternatives (s.tokens.reverse :: g.branches).reverse :: g.outer, groups := rest }

/-- Reads a character that has no say in how others are read. -/
def plain (s : State) (c : Char) : Except Flaw State :=
  match c with
  | '?' => .ok (s.push .any)
  | '[' => .ok { s with set := some {} }
  | '{' => .ok { s with tokens := [], groups := ⟨[], s.tokens⟩ :: s.groups }
  | '}' => s.closeGroup
  | ',' => .ok s.comma
  | c => .ok (s.push (.literal c))

/-- Reads a character of a set. -/
def inSet (s : State) (set : ClassState) (c : Char) : Except Flaw State :=
  if (c == '!' || c == '^') && s.previous == some '[' && set.first && !set.negated then
    .ok { s with set := some { set with negated := true } }
  else if c == ']' && !set.first then .ok { s.push set.token with set := none }
  else do return { s with set := some (← set.add c) }

/-- The tokens at the end of the pattern. -/
def finish (s : State) : Except Flaw (List Token) :=
  if s.set.isSome then .error .unclosedClass
  else if !s.groups.isEmpty then .error .unclosedAlternatives
  else .ok s.tokens.reverse

end State

/-- Reads what is left of a pattern. -/
def parseFrom (s : State) : Text → Except Flaw (List Token)
  | [] => s.finish
  | c :: rest =>
    match s.set with
    | some set => do parseFrom { ← s.inSet set c with previous := some c } rest
    | none =>
      if c == '\\' then
        match rest with
        | [] => .error .danglingEscape
        | d :: rest => parseFrom { s.push (.literal d) with previous := some d } rest
      else if c == '*' then
        match rest with
        | '*' :: rest =>
          match s.doubleStar rest, rest with
          | (s, true), _ :: rest => parseFrom { s with previous := some '/' } rest
          | (s, _), rest => parseFrom { s with previous := some '*' } rest
        | rest => parseFrom { s.push .star with previous := some '*' } rest
      else do parseFrom { ← s.plain c with previous := some c } rest

/-- The tokens of a pattern. -/
def parse (pattern : String) : Except Flaw (List Token) := parseFrom {} pattern.toList

end ClassRefactor.Glob
