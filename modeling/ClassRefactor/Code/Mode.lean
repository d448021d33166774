import ClassRefactor.Text.White

/-!
# Code, comments and literals

Each character of a source text belongs to code, to a comment or to a literal. Delimiters belong to
what they open or close. Preprocessor lines count as comments.

Masking replaces every comment by blanks and every literal by quotes, byte for byte, so an offset
found in the masked text is an offset of the source. Line feeds in comments stay.
-/

namespace ClassRefactor

/-- What a character of the source belongs to. -/
inductive Mode where
  | code
  | comment
  | literal
deriving DecidableEq, Repr, Inhabited

/-- Where a scan of the source stands. `fresh` says that only blanks precede on the line, so that
a `#` would begin a preprocessor line. -/
inductive Place where
  | code (fresh : Bool)
  | lineComment
  | blockComment (fresh : Bool)
  /-- In a literal that ends at `close` or at the end of its line, with backslash escapes. -/
  | quoted (close : Char)
  /-- In a verbatim string: backslashes are plain, and a doubled quote stands for a quote. -/
  | verbatim
  /-- In a raw string, which ends at as many quotes as opened it. -/
  | raw (quotes : Nat)
deriving DecidableEq, Repr

namespace Place

/-- The number of quotes at the front of a text. -/
def quoteRun (t : Text) : Nat := (t.takeWhile (· == '"')).length

/-- The length of the mark that opens a verbatim string at the front of a text. -/
def verbatimMark : Text → Option Nat
  | '@' :: '"' :: _ => some 2
  | '@' :: '$' :: '"' :: _ => some 3
  | '$' :: '@' :: '"' :: _ => some 3
  | _ => none

/-- Whether a plain, interpolated or raw string opens at the front of a text. -/
def opensString : Text → Bool
  | '"' :: _ => true
  | '$' :: '"' :: _ => true
  | _ => false

/-- Reads one character in code. The answer is the mode of the character, the number of characters
after it that share its fate, and the place after those. -/
def stepCode (fresh : Bool) (c : Char) (rest : Text) : Mode × Nat × Place :=
  if (c == '/' && rest.head? == some '/') || (c == '#' && fresh) then
    (.comment, 0, .lineComment)
  else if c == '/' && rest.head? == some '*' then
    (.comment, 1, .blockComment fresh)
  else if let some n := verbatimMark (c :: rest) then
    (.literal, n - 1, .verbatim)
  else if opensString (c :: rest) then
    let dollar := if c == '$' then 1 else 0
    let quotes := quoteRun ((c :: rest).drop dollar)
    if 3 ≤ quotes then (.literal, dollar + quotes - 1, .raw quotes)
    else (.literal, dollar, .quoted '"')
  else if c == '\'' then
    (.literal, 0, .quoted '\'')
  else
    (.code, 0, .code (c == '\n' || (isLayoutBlank c && fresh)))

/-- Reads one character; see `stepCode` for the answer. -/
def step : Place → Char → Text → Mode × Nat × Place
  | .code fresh, c, rest => stepCode fresh c rest
  | .lineComment, c, _ => (.comment, 0, if c == '\n' then .code true else .lineComment)
  | .blockComment fresh, c, rest =>
    if c == '*' && rest.head? == some '/' then (.comment, 1, .code fresh)
    else (.comment, 0, .blockComment fresh)
  | .quoted close, c, _ =>
    if c == '\\' then (.literal, 1, .quoted close)
    else (.literal, 0, if c == close || c == '\n' then .code (c == '\n') else .quoted close)
  | .verbatim, c, rest =>
    if c == '"' then
      if rest.head? == some '"' then (.literal, 1, .verbatim) else (.literal, 0, .code false)
    else (.literal, 0, .verbatim)
  | .raw quotes, c, rest =>
    if quotes ≤ quoteRun (c :: rest) then (.literal, quotes - 1, .code false)
    else (.literal, 0, .raw quotes)

/-- The mode of each character of a text. The first `held` characters have mode `mode`, and the
scan stands at `place` after them. -/
def modes (place : Place) (held : Nat) (mode : Mode) : Text → List Mode
  | [] => []
  | c :: t =>
    match held with
    | held + 1 => mode :: modes place held mode t
    | 0 =>
      let (mode, held, next) := step place c t
      mode :: modes next held mode t

end Place

namespace Text

/-- The mode of each character of a source text. -/
def modes (t : Text) : List Mode := Place.modes (.code true) 0 .code t

/-- What stands for a character in the masked text: as many bytes as the character has. -/
def maskOne (c : Char) : Mode → Text
  | .code => [c]
  | .comment => if c == '\n' then [c] else List.replicate c.utf8Size ' '
  | .literal => List.replicate c.utf8Size '"'

/-- The source with comments blanked out and literals replaced by quotes. -/
def mask (t : Text) : Text := (t.zipWith maskOne (modes t)).flatten

end Text

@[simp] theorem Place.length_modes (place : Place) (held : Nat) (mode : Mode) (t : Text) :
    (place.modes held mode t).length = t.length := by
  induction t generalizing place held mode with
  | nil => rfl
  | cons c t ih => cases held <;> simp [Place.modes, ih]

end ClassRefactor
