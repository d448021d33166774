import ClassRefactor.Text.Join
import ClassRefactor.Text.White

/-!
# Formatting style

The conventions by which new members are written, and how they are told from the source around them.
-/

namespace ClassRefactor

structure Style where
  /-- The indentation of a member. -/
  indent : String := "    "
  /-- One more level of indentation. -/
  indentUnit : String := "    "
  newline : String := "\n"
  /-- Whether an opening brace stands on a line of its own. -/
  braceOnNewLine : Bool := true
deriving DecidableEq, Repr, Inhabited

namespace Style

/-- The indentation of a statement in a member. -/
def nested (s : Style) : String := s.indent ++ s.indentUnit

/-- The number of spaces a line begins with. -/
def leadingSpaces (line : Text) : Nat := (line.takeWhile (· == ' ')).length

/-- The smallest indentation by spaces among the lines that have one and are not blank. -/
def smallestIndent? (t : Text) : Option Nat :=
  let lines := (t.splitAtChar '\n').filter fun line => !line.all isWhite
  ((lines.map leadingSpaces).filter (0 < ·)).min?

/-- The style that a text suggests. Its lines give the unit of indentation and the line ends;
`classIndent` and `braceOnNewLine` are those of the class that a member is written for. -/
def infer (t : Text) (classIndent : String) (braceOnNewLine : Bool) : Style :=
  let tabs := classIndent.toList.contains '\t' ||
    (t.splitAtChar '\n').any fun line => line.head? == some '\t'
  let unit :=
    if tabs then "\t"
    else .ofList (List.replicate ((smallestIndent? t).getD 4) ' ')
  { indent := classIndent ++ unit
    indentUnit := unit
    newline := if t.includes ['\r', '\n'] then "\r\n" else "\n"
    braceOnNewLine }

end Style

end ClassRefactor
