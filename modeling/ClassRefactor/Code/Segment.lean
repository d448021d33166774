import ClassRefactor.Code.Scan

/-!
# Segments

A class body is cut into members and a block into statements by one rule. A segment begins at the
first cell that is no blank. It ends at a `;` outside all brackets, or at the `}` that closes an
outermost block, unless that block belongs to an expression, which runs to its `;`. What follows a
closed block may also carry the segment on; members and statements differ only in that.
-/

namespace ClassRefactor

/-- What the code after a closed block says about the segment that the block belongs to. -/
inductive AfterBlock where
  | ends
  | continues
  /-- The block was part of an expression, so the segment runs to its `;`. -/
  | expression
deriving DecidableEq, Repr

/-- Judges the code after a block, given the start of the segment, the position after the block and
the end of the code to cut. -/
abbrev AfterBlock.Rule := (start after stop : Nat) → AfterBlock

namespace Segment

/-- The state of a cut within a segment. -/
structure State where
  start : Option Nat := none
  braces : Nat := 0
  parens : Nat := 0
  /-- The segment holds an expression, so a closed block does not end it. -/
  inExpression : Bool := false
deriving Repr

/-- Reads a cell of the segment that begins at `start`. The answer is the state after it, or none
if the segment ends with it. -/
def advance (code : Code) (rule : AfterBlock.Rule) (stop start : Nat) (s : State) (pos : Nat)
    (c : Char) : Option State :=
  let s := { s with start := some start }
  if c == '(' || c == '[' then some { s with parens := s.parens + 1 }
  else if c == ')' || c == ']' then some { s with parens := s.parens - 1 }
  else if c == '{' then
    let opensExpression := s.braces == 0 && s.parens == 0 && !s.inExpression &&
      (code.assignment? start pos).isSome
    some { s with braces := s.braces + 1, inExpression := s.inExpression || opensExpression }
  else if c == '}' then
    let s := { s with braces := s.braces - 1 }
    if s.braces == 0 && s.parens == 0 && !s.inExpression then
      match rule start (pos + 1) stop with
      | .ends => none
      | .continues => some s
      | .expression => some { s with inExpression := true }
    else some s
  else if c == ';' && s.braces == 0 && s.parens == 0 then none
  else some s

/-- The segments of the cells at `pos` and after. -/
def rangesFrom (code : Code) (rule : AfterBlock.Rule) (stop : Nat) (s : State) (pos : Nat) :
    Code → List Range
  | [] => (s.start.map fun start => ⟨start, stop⟩).toList
  | c :: rest =>
    if s.start.isNone && isLayoutBlank c then rangesFrom code rule stop s (pos + 1) rest
    else
      let start := s.start.getD pos
      match advance code rule stop start s pos c with
      | none => ⟨start, pos + 1⟩ :: rangesFrom code rule stop {} (pos + 1) rest
      | some s => rangesFrom code rule stop s (pos + 1) rest

/-- The segments between two positions. Text after the last terminator is a segment too. -/
def ranges (code : Code) (rule : AfterBlock.Rule) (start stop : Nat) : List Range :=
  rangesFrom code rule stop {} start (code.window start stop)

end Segment

namespace Code

/-- After a member's block, an `=` that is not `==` begins the initializer of a property. -/
def afterMemberBlock (code : Code) : AfterBlock.Rule := fun _ after stop =>
  let next := code.skipBlanks after stop
  if next < stop && code[next]? == some '=' && code[next + 1]? != some '=' then .expression
  else .ends

/-- The members of the class body between two positions. A stray `;` is not a member. -/
def memberRanges (code : Code) (start stop : Nat) : List Range :=
  (Segment.ranges code code.afterMemberBlock start stop).filter fun r =>
    !(r.length == 1 && code[r.start]? == some ';')

/-- After a statement's block, `else`, `catch` and `finally` carry the statement on, and so does
`while` if the statement began with `do`. -/
def afterStatementBlock (code : Code) : AfterBlock.Rule := fun start after stop =>
  let next := code.skipBlanks after stop
  let word := code.window next (code.identEnd next stop)
  if word == "else".toList || word == "catch".toList || word == "finally".toList then .continues
  else if word == "while".toList && "do".toList.isPrefixOf (code.drop start) &&
      code.isBreak (start + 2) then .continues
  else .ends

/-- The statements of the block between two positions, without blanks at their ends. -/
def statementRanges (code : Code) (start stop : Nat) : List Range :=
  (Segment.ranges code code.afterStatementBlock start stop).map fun r =>
    ⟨r.start, code.trimBlanks r.start r.stop⟩

end Code

end ClassRefactor
