import ClassRefactor.Text.White
import ClassRefactor.Text.Range

/-!
# Scanning code cells

The primitives that find structure in masked code: runs of blanks and identifier cells, matching
delimiters, top-level commas and assignments, and whole words. Code is the cells of a masked text,
so every position is a byte offset of the source.
-/

namespace ClassRefactor

/-- Masked code, one cell per byte. -/
abbrev Code := List Char

/-- Letters, digits, `_`, `@`, and every character outside ASCII belong to identifiers. -/
def isIdentCell (c : Char) : Bool :=
  c.isAlphanum || c == '_' || c == '@' || 0x80 ≤ c.toNat

namespace Code

/-- The cells from `start` up to `stop`. -/
def window (code : Code) (start stop : Nat) : Code := (code.drop start).take (stop - start)

/-- The number of cells at the front of `code` that satisfy `p`. -/
def leading (p : Char → Bool) (code : Code) : Nat := (code.takeWhile p).length

/-- The number of cells at the end of `code` that satisfy `p`. -/
def trailing (p : Char → Bool) (code : Code) : Nat := leading p code.reverse

/-- The first position from `pos` on, before `stop`, that holds no blank. -/
def skipBlanks (code : Code) (pos stop : Nat) : Nat :=
  pos + leading isLayoutBlank (code.window pos stop)

/-- The position where the blanks before `stop` begin, not before `start`. -/
def trimBlanks (code : Code) (start stop : Nat) : Nat :=
  stop - trailing isLayoutBlank (code.window start stop)

/-- The end of the identifier that begins at `pos`, not after `stop`. -/
def identEnd (code : Code) (pos stop : Nat) : Nat :=
  pos + leading isIdentCell (code.window pos stop)

/-- Whether no identifier cell stands at `pos`. -/
def isBreak (code : Code) (pos : Nat) : Bool :=
  match code[pos]? with
  | none => true
  | some c => !isIdentCell c

/-- The distance to the delimiter that closes what is open, where `depth` inner pairs are open. -/
def closeFrom (opening closing : Char) (depth : Nat) : Code → Option Nat
  | [] => none
  | c :: rest =>
    if c == opening then (closeFrom opening closing (depth + 1) rest).map (· + 1)
    else if c == closing then
      match depth with
      | 0 => some 0
      | depth + 1 => (closeFrom opening closing depth rest).map (· + 1)
    else (closeFrom opening closing depth rest).map (· + 1)

/-- The position of the delimiter that closes the one opened at `start`. -/
def matchingClose? (opening closing : Char) (code : Code) (start : Nat) : Option Nat :=
  match code.drop start with
  | [] => none
  | c :: rest =>
    if c == opening then (closeFrom opening closing 0 rest).map (start + 1 + ·) else none

/-- Brackets of all three kinds share one depth, which never falls below zero. -/
def bracketDepth (depth : Nat) (c : Char) : Nat :=
  if c == '(' || c == '[' || c == '{' then depth + 1
  else if c == ')' || c == ']' || c == '}' then depth - 1
  else depth

/-- The depth of type argument lists after `c`. A `<` opens one only right after an identifier, so
a comparison does not nest. -/
def angleDepth (depth : Nat) (previous : Option Char) (c : Char) : Nat :=
  if c == '<' then if previous.any isIdentCell then depth + 1 else depth
  else if c == '>' then depth - 1
  else depth

/-- Cuts code at its top-level commas; `piece` holds the current piece, last cell first. -/
def commaPiecesFrom (piece : Code) (brackets angles : Nat) : Code → List Code
  | [] => [piece.reverse]
  | c :: rest =>
    if c == ',' && brackets == 0 && angles == 0 then
      piece.reverse :: commaPiecesFrom [] 0 0 rest
    else
      commaPiecesFrom (c :: piece) (bracketDepth brackets c) (angleDepth angles piece.head? c) rest

/-- The pieces between the commas that stand outside brackets and type argument lists. -/
def commaPieces (code : Code) : List Code := commaPiecesFrom [] 0 0 code

/-- The ranges of pieces laid out from `start` on with one separator between each two. -/
def spread (start : Nat) : List Code → List Range
  | [] => []
  | piece :: rest => ⟨start, start + piece.length⟩ :: spread (start + piece.length + 1) rest

/-- The ranges of the comma-separated pieces between two positions. -/
def commaRanges (code : Code) (start stop : Nat) : List Range :=
  spread start (commaPieces (code.window start stop))

/-- Whether an `=` between these two cells is part of a comparison. -/
def isComparison (previous next : Char) : Bool :=
  next == '=' || previous == '=' || previous == '!' || previous == '<' || previous == '>'

/-- The distance to the first assignment-like `=`; `beyond` is the cell after the scanned code. -/
def assignFrom (beyond : Option Char) (previous : Char) (depth : Nat) : Code → Option Nat
  | [] => none
  | c :: rest =>
    if c == '=' && depth == 0 &&
        !isComparison previous ((rest.head?.or beyond).getD ' ') then some 0
    else (assignFrom beyond c (bracketDepth depth c) rest).map (· + 1)

/-- The position of the first `=` between `start` and `stop` outside brackets that is not part of
`==`, `!=`, `<=` or `>=`. The arrow `=>` counts. -/
def assignment? (code : Code) (start stop : Nat) : Option Nat :=
  (assignFrom code[stop]? ' ' 0 (code.window start stop)).map (start + ·)

/-- The positions at which `word` occurs from `pos` on, each search beginning after the occurrence
before it. The first `skip` cells are passed over. -/
def occurrencesFrom (word : Code) (skip pos : Nat) : Code → List Nat
  | [] => []
  | c :: rest =>
    match skip with
    | skip + 1 => occurrencesFrom word skip (pos + 1) rest
    | 0 =>
      if word.isPrefixOf (c :: rest) then
        pos :: occurrencesFrom word (word.length - 1) (pos + 1) rest
      else occurrencesFrom word 0 (pos + 1) rest

/-- The positions at which `word` stands as a whole identifier. -/
def wordPositions (word code : Code) : List Nat :=
  (occurrencesFrom word 0 0 code).filter fun pos =>
    (pos == 0 || code.isBreak (pos - 1)) && code.isBreak (pos + word.length)

/-- Whether `word` stands in the code as a whole identifier. -/
def containsWord (word code : Code) : Bool := !(wordPositions word code).isEmpty

end Code

end ClassRefactor
