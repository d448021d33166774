import ClassRefactor.Code.Scan

/-!
# Parts of declarations

Modifiers, attributes, and the split of a declaration into its type and its name.
-/

namespace ClassRefactor

/-- The modifiers of a class. -/
def typeModifiers : List String :=
  ["public", "private", "protected", "internal", "static", "abstract", "sealed", "partial",
    "unsafe", "new", "file", "readonly"]

/-- The modifiers of a member. -/
def memberModifiers : List String :=
  ["public", "private", "protected", "internal", "static", "readonly", "const", "volatile",
    "unsafe", "new", "virtual", "override", "abstract", "sealed", "extern", "async", "partial",
    "required", "fixed", "ref"]

/-- The modifiers of a parameter. -/
def parameterModifiers : List String := ["ref", "out", "in", "params", "this", "scoped"]

/-- The words that mark a member as neither field, constructor nor method. -/
def declarationKeywords : List String :=
  ["event", "delegate", "operator", "class", "struct", "interface", "enum", "record"]

namespace Code

/-- The known word that some cells spell, if any. -/
def known? (known : List String) (word : Code) : Option String :=
  known.find? fun k => k.toList == word

/-- The identifiers outside attribute brackets; `word` holds the current one, last cell first. -/
def wordsFrom (word : Code) (brackets : Nat) : Code → List Code
  | [] => if word.isEmpty then [] else [word.reverse]
  | c :: rest =>
    if brackets == 0 && isIdentCell c then wordsFrom (c :: word) brackets rest
    else
      let brackets := if c == '[' then brackets + 1 else if c == ']' then brackets - 1 else brackets
      if word.isEmpty then wordsFrom [] brackets rest
      else word.reverse :: wordsFrom [] brackets rest

/-- The class modifiers among the words between two positions. -/
def classModifiers (code : Code) (start stop : Nat) : List String :=
  (wordsFrom [] 0 (code.window start stop)).filterMap (known? typeModifiers)

/-- How far back a declaration reaches over cells that are given last first: to the `;`, `{` or
`}` outside brackets that ends what precedes it. -/
def reachBack (brackets : Nat) : Code → Nat
  | [] => 0
  | c :: rest =>
    if c == ']' then reachBack (brackets + 1) rest + 1
    else if c == '[' then reachBack (brackets - 1) rest + 1
    else if brackets == 0 && (c == ';' || c == '{' || c == '}') then 0
    else reachBack brackets rest + 1

/-- The start of the declaration whose keyword stands at `keyword`. -/
def declarationStart (code : Code) (keyword : Nat) : Nat :=
  code.skipBlanks (keyword - reachBack 0 (code.take keyword).reverse) keyword

/-- Passes over blanks and attributes. `depth` brackets are open, the outermost at `opened`, which
is also the answer if it never closes. -/
def attributesFrom (depth opened pos : Nat) : Code → Nat
  | [] => if depth == 0 then pos else opened
  | c :: rest =>
    match depth with
    | 0 =>
      if c == '[' then attributesFrom 1 pos (pos + 1) rest
      else if isLayoutBlank c then attributesFrom 0 opened (pos + 1) rest
      else pos
    | depth + 1 =>
      if c == '[' then attributesFrom (depth + 2) opened (pos + 1) rest
      else if c == ']' then attributesFrom depth opened (pos + 1) rest
      else attributesFrom (depth + 1) opened (pos + 1) rest

/-- The position after the attributes at `pos` and the blanks around them. -/
def skipAttributes (code : Code) (pos stop : Nat) : Nat :=
  attributesFrom 0 pos pos (code.window pos stop)

/-- Reads modifiers. The answer is the modifiers and the position of the first word that is none.
`word` holds the current word, last cell first, and `wordStart` is where it begins. -/
def modifiersFrom (known : List String) (word : Code) (wordStart pos : Nat) :
    Code → List String × Nat
  | [] =>
    if word.isEmpty then ([], pos)
    else match known? known word.reverse with
      | none => ([], wordStart)
      | some modifier => ([modifier], pos)
  | c :: rest =>
    if isIdentCell c then
      modifiersFrom known (c :: word) (if word.isEmpty then pos else wordStart) (pos + 1) rest
    else if word.isEmpty then
      if isLayoutBlank c then modifiersFrom known [] pos (pos + 1) rest else ([], pos)
    else match known? known word.reverse with
      | none => ([], wordStart)
      | some modifier =>
        if isLayoutBlank c then
          let (modifiers, next) := modifiersFrom known [] pos (pos + 1) rest
          (modifier :: modifiers, next)
        else ([modifier], pos)

/-- The modifiers at the front of a declaration, and the position after them. -/
def modifiers (known : List String) (code : Code) (start stop : Nat) : List String × Nat :=
  modifiersFrom known [] start start (code.window start stop)

/-- Whether only white space stands between two positions. -/
def isWhiteBetween (code : Code) (start stop : Nat) : Bool := (code.window start stop).all isWhite

/-- The range between two positions without the white space at its ends. -/
def trimmed (code : Code) (start stop : Nat) : Range :=
  let cells := code.window start stop
  let front := leading isWhite cells
  ⟨start + front, start + front + (cells.length - front - trailing isWhite (cells.drop front))⟩

/-- Splits a declaration at its last identifier into the range of the type, which begins at
`start`, and the range of the name. -/
def typeAndName? (code : Code) (start stop : Nat) : Option (Range × Range) :=
  let nameStop := code.trimBlanks start stop
  let nameStart := nameStop - trailing isIdentCell (code.window start nameStop)
  let typeStop := nameStart - trailing isWhite (code.window start nameStart)
  if nameStart == nameStop || typeStop == start then none
  else some (⟨start, typeStop⟩, ⟨nameStart, nameStop⟩)

end Code

end ClassRefactor
