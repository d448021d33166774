import ClassRefactor.Pattern.Set
import ClassRefactor.Text.Alphabetic

/-!
# Patterns

Whether a text is a pattern: a regular expression with groups, alternatives, repetitions and flags.
A number of repetitions in braces is not part of the language, and neither are references and
assertions about what stands before or after.
-/

namespace ClassRefactor.Pattern

/-- Whether a character may stand in the name of a group, at its front or later. -/
def isNameChar (first : Bool) (c : Char) : Bool :=
  c == '_' || if first then isAlphabetic c else
    c == '.' || c == '[' || c == ']' || isAlphanumeric c

/-- Reads the name of a group up to its closing angle bracket. -/
def groupName? (t : Text) : Option (Text × Text) :=
  let name := t.takeWhile (· != '>')
  match name, t.drop name.length with
  | c :: cs, '>' :: rest =>
    if isNameChar true c && cs.all (isNameChar false) then some (name, rest) else none
  | _, _ => none

/-- The letters of flags. -/
def flagLetters : Text := "imsUuRx".toList

/-- Reads flags up to a colon or a closing parenthesis, which is part of the rest. `seen` holds what
has been read, last first: each letter and the minus sign may stand once, and the minus sign not at
the end. -/
def flagsFrom (seen : Text) : Text → Option (Text × Text)
  | [] => none
  | c :: t =>
    if c == ':' || c == ')' then
      if seen.head? == some '-' then none else some (seen.reverse, c :: t)
    else if seen.contains c then none
    else if c == '-' || flagLetters.contains c then flagsFrom (c :: seen) t
    else none

/-- What flags say about one of them: those after the minus sign are off. -/
def flagValue (letters : Text) (letter : Char) (old : Bool) : Bool :=
  if !letters.contains letter then old else (letters.takeWhile (· != '-')).contains letter

def Flags.change (f : Flags) (letters : Text) : Flags :=
  { extended := flagValue letters 'x' f.extended, unicode := flagValue letters 'u' f.unicode }

/-- A group, or the whole pattern, that is being read. -/
structure Level where
  flags : Flags := {}
  /-- How deep the alternatives nest that are complete, if there are any. -/
  complete : Option Nat := none
  /-- How deep the items of the current alternative nest, last first. Flags, which cannot be
  repeated, have no depth. -/
  items : List (Option Nat) := []

namespace Level

/-- How deep the current alternative nests. -/
def currentDepth (l : Level) : Nat := rowDepth (l.items.map fun d => d.getD 0)

def depth (l : Level) : Nat :=
  match l.complete with
  | none => l.currentDepth
  | some d => Nat.max d l.currentDepth + 1

def add (l : Level) (item : Option Nat) : Level := { l with items := item :: l.items }

/-- Begins the next alternative. -/
def next (l : Level) : Level :=
  { l with complete := some (Nat.max (l.complete.getD 0) l.currentDepth), items := [] }

/-- Repeats the last item. -/
def repeat? (l : Level) : Option Level :=
  match l.items with
  | some d :: rest => some { l with items := some (d + 1) :: rest }
  | _ => none

end Level

/-- A pattern that is being read: the innermost group, those around it, and the names of groups. -/
structure State where
  level : Level := {}
  outer : List Level := []
  names : List Text := []

namespace State

def add (s : State) (item : Option Nat) : State := { s with level := s.level.add item }

/-- Opens a group with its flags. -/
def openGroup (s : State) (flags : Flags) : State :=
  { s with level := { flags }, outer := s.level :: s.outer }

/-- Opens a group with a name, which no other group may have. -/
def openNamed? (s : State) (t : Text) : Option (State × Text) := do
  let (name, t) ← groupName? t
  if s.names.contains name then none
  else some ({ s.openGroup s.level.flags with names := name :: s.names }, t)

/-- Reads flags, which are for a group of their own or for the rest of the current one. -/
def readFlags? (s : State) (t : Text) : Option (State × Text) := do
  let (letters, t) ← flagsFrom [] t
  let flags := s.level.flags.change letters
  match t with
  | ':' :: t => some (s.openGroup flags, t)
  | ')' :: t =>
    if letters.isEmpty then none
    else some ({ s with level := { s.level.add none with flags } }, t)
  | _ => none

/-- Reads what follows an opening parenthesis. -/
def readGroup? (s : State) (t : Text) : Option (State × Text) :=
  match s.level.flags.skip t with
  | '?' :: 'P' :: '<' :: t => s.openNamed? t
  | '?' :: '<' :: t => s.openNamed? t
  | '?' :: t => s.readFlags? t
  | t => some (s.openGroup s.level.flags, t)

/-- Closes the innermost group. -/
def closeGroup? (s : State) : Option State :=
  match s.outer with
  | [] => none
  | above :: outer => some { s with level := above.add (some (s.level.depth + 1)), outer }

/-- Repeats the last item; a question mark right after makes the repetition lazy. -/
def repeat? (s : State) (t : Text) : Option (State × Text) := do
  let level ← s.level.repeat?
  return ({ s with level }, if t.head? == some '?' then t.drop 1 else t)

/-- Reads one item of a pattern. -/
def step? (s : State) : Text → Option (State × Text)
  | [] => none
  | c :: t =>
    let flags := s.level.flags
    if c == '(' then s.readGroup? t
    else if c == ')' then s.closeGroup?.map fun s => (s, t)
    else if c == '|' then some ({ s with level := s.level.next }, t)
    else if c == '?' || c == '*' || c == '+' then s.repeat? t
    else if c == '{' then none
    else if c == '[' then do
      let (depth, t) ← set? flags t
      return (s.add (some depth), t)
    else do
      let (atom, t) ← atom? flags (c :: t)
      if atom.mayStand flags then some (s.add (some 0), t) else none

/-- Reads the rest of a pattern in at most `steps` steps. -/
def readFrom? : (steps : Nat) → State → Text → Option State
  | 0, _, _ => none
  | steps + 1, s, t =>
    match s.level.flags.skip t with
    | [] => some s
    | t => do
      let (s, t) ← s.step? t
      readFrom? steps s t

end State

/-- A pattern may nest so deep. -/
def depthLimit : Nat := 250

/-- Whether a text is a pattern. -/
def isValid (t : Text) : Bool :=
  (State.readFrom? (t.length + 1) {} t).any fun s =>
    s.outer.isEmpty && s.level.depth ≤ depthLimit

end ClassRefactor.Pattern
