import ClassRefactor.Text.Basic

/-!
# Lines

Lines end at a line feed. Offsets past the end of the text count as the end.
-/

namespace ClassRefactor.Text

/-- The one-based number of the line that holds an offset. -/
def lineNumber (t : Text) (offset : Nat) : Nat :=
  ((cells t).take offset).count '\n' + 1

/-- The offset at which the line that holds `offset` begins. -/
def lineStart (t : Text) (offset : Nat) : Nat :=
  let earlier := (cells t).take offset
  earlier.length - (earlier.reverse.takeWhile (· != '\n')).length

/-- The spaces and tabs that a line begins with. -/
def lineIndent (t : Text) (offset : Nat) : String :=
  .ofList (((cells t).drop (lineStart t offset)).takeWhile fun c => c == ' ' || c == '\t')

/-- Whether only spaces, tabs and carriage returns precede an offset on its line. -/
def startsLine (t : Text) (offset : Nat) : Bool :=
  (((cells t).take offset).drop (lineStart t offset)).all fun c =>
    c == ' ' || c == '\t' || c == '\r'

/-- What remains of a text after its first `n` lines, with the offset where it begins. -/
def dropLines? : Text → Nat → Option (Nat × Text)
  | t, 0 => some (0, t)
  | [], _ + 1 => none
  | c :: t, n + 1 =>
    (dropLines? t (if c == '\n' then n else n + 1)).map fun p => (c.utf8Size + p.1, p.2)

/-- The first line of a text, without its line feed and the carriage returns before it. -/
def firstLine (t : Text) : Text :=
  ((t.takeWhile (· != '\n')).reverse.dropWhile (· == '\r')).reverse

/-- The offset of a one-based line and a one-based column counted in characters. The column may
point one past the last character of the line. -/
def offsetAt? (t : Text) (line column : Nat) : Option Nat :=
  if line == 0 || column == 0 then none
  else do
    let (start, rest) ← dropLines? t (line - 1)
    let content := firstLine rest
    if column - 1 ≤ content.length then some (start + size (content.take (column - 1))) else none

end ClassRefactor.Text
