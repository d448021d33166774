import ClassRefactor.Pattern.Atom

/-!
# Sets of characters in patterns

A set stands in brackets. Its members are atoms, ranges, named sets and other sets, and sets can be
intersected and subtracted. Reading a set answers how deep it nests.
-/

namespace ClassRefactor.Pattern

/-- How deep items nest that stand next to one another: a single one as deep as it does, and several
one deeper than the deepest. -/
def rowDepth : List Nat → Nat
  | [] => 0
  | [d] => d
  | d :: ds => ds.foldl Nat.max d + 1

/-- The names that may stand between colons and brackets. -/
def setNames : List String :=
  ["alnum", "alpha", "ascii", "blank", "cntrl", "digit", "graph", "lower", "print", "punct",
    "space", "upper", "word", "xdigit"]

/-- Reads a named set after its opening bracket: whether it is negated, and what follows it. -/
def namedSet? : Text → Option (Bool × Text)
  | ':' :: t =>
    let (negated, t) := match t with
      | '^' :: t => (true, t)
      | t => (false, t)
    let name := t.takeWhile (· != ':')
    match t.drop name.length with
    | ':' :: ']' :: rest => if setNames.contains (.ofList name) then some (negated, rest) else none
    | _ => none
  | _ => none

/-- The next character that counts. A comment is not passed over as a whole, only its mark is. -/
def Flags.peek (f : Flags) (t : Text) : Option Char :=
  if f.extended then
    let next := match t.dropWhile isWhite with
      | '#' :: t => (t.dropWhile isWhite).head?
      | t => t.head?
    next.or t.head?
  else t.head?

/-- A set that is being read. -/
structure SetState where
  /-- How deep the members nest that stand next to one another, last first. -/
  members : List Nat := []
  /-- How deep the set before an operator nests. -/
  left : Option Nat := none
  /-- Nothing but dashes has been read. -/
  leading : Bool := true

namespace SetState

def depth (s : SetState) : Nat :=
  match s.left with
  | none => rowDepth s.members
  | some left => Nat.max left (rowDepth s.members) + 1

def add (s : SetState) (depth : Nat) : SetState :=
  { s with members := depth :: s.members, leading := false }

end SetState

/-- Begins a set after its opening bracket. Without the Unicode flag, the complement of a set would
match parts of characters. -/
def beginSet? (f : Flags) (t : Text) : Option Text :=
  match f.skip t with
  | '^' :: t => if f.unicode then some t else none
  | t => some t

/-- Reads a member, or a range of characters from one to another. -/
def range? (f : Flags) (t : Text) : Option Text := do
  let (first, t) ← member? f t
  match f.skip t with
  | '-' :: rest =>
    if f.peek rest == some ']' || f.peek rest == some '-' then
      if first.mayBeMember f then some ('-' :: rest) else none
    else
      let (last, rest) ← member? f (f.skip rest)
      match first, last with
      | .literal low _, .literal high _ =>
        if low ≤ high && first.mayBeMember f && last.mayBeMember f then some rest else none
      | _, _ => none
  | t => if first.mayBeMember f then some t else none

/-- Whether a text begins with an operator on sets. -/
def beginsWithOperator (t : Text) : Bool :=
  ["&&", "--", "~~"].any fun operator => operator.toList.isPrefixOf t

/-- Reads the rest of a set in at most `steps` steps, where `outer` are the sets around it. The
answer is how deep the whole nests, and what follows it. -/
def setFrom (f : Flags) : (steps : Nat) → SetState → (outer : List SetState) → Text →
    Option (Nat × Text)
  | 0, _, _, _ => none
  | steps + 1, s, outer, t =>
    match f.skip t with
    | [] => none
    | c :: t =>
      if s.leading && (c == '-' || (c == ']' && s.members.isEmpty)) then
        setFrom f steps { s.add 0 with leading := c == '-' } outer t
      else if c == '[' then
        match namedSet? t with
        | some (negated, t) =>
          if f.unicode || !negated then setFrom f steps (s.add 0) outer t else none
        | none => do setFrom f steps {} ({ s with leading := false } :: outer) (← beginSet? f t)
      else if c == ']' then
        match outer with
        | [] => some (s.depth + 1, t)
        | above :: outer => setFrom f steps (above.add (s.depth + 1)) outer t
      else if beginsWithOperator (c :: t) then
        setFrom f steps { left := some s.depth, leading := false } outer (t.drop 1)
      else do setFrom f steps (s.add 0) outer (← range? f (c :: t))

/-- Reads a set after its opening bracket. -/
def set? (f : Flags) (t : Text) : Option (Nat × Text) := do
  setFrom f (t.length + 1) {} [] (← beginSet? f t)

end ClassRefactor.Pattern
