import ClassRefactor.Layout.Member

/-!
# Class layouts

Classes are found by their keyword, wherever it stands as a whole word and a name, a body and the
braces around it follow.
-/

namespace ClassRefactor

namespace Code

/-- Where the body of a class begins: at the first brace outside parentheses and brackets. A `;` or
`}` before it leaves no answer. -/
def classBodyFrom (depth pos : Nat) : Code → Option Nat
  | [] => none
  | c :: rest =>
    if c == '(' || c == '[' then classBodyFrom (depth + 1) (pos + 1) rest
    else if c == ')' || c == ']' then classBodyFrom (depth - 1) (pos + 1) rest
    else if depth == 0 && c == '{' then some pos
    else if depth == 0 && (c == ';' || c == '}') then none
    else classBodyFrom depth (pos + 1) rest

/-- The type parameters at `pos`, if there are any; none if they do not close. -/
def typeParams? (code : Code) (pos : Nat) : Option (Option Range) :=
  if code[pos]? == some '<' then
    (matchingClose? '<' '>' code pos).map fun close => some ⟨pos, close + 1⟩
  else some none

/-- The layout of the class whose keyword stands at `keyword`, if it declares one. The keyword of a
constraint such as `where T : class` has no name after it, or the word `where`. -/
def classAt? (code : Code) (keyword : Nat) : Option ClassLayout := do
  let nameStart := code.skipBlanks (keyword + "class".length) code.length
  let nameStop := code.identEnd nameStart code.length
  let name := code.window nameStart nameStop
  if name.isEmpty || name == "where".toList then none
  else
    let next := code.skipBlanks nameStop code.length
    let typeParams ← code.typeParams? next
    let tailStart := typeParams.elim next Range.stop
    let opening ← classBodyFrom 0 tailStart (code.drop tailStart)
    let closing ← matchingClose? '{' '}' code opening
    let start := code.declarationStart keyword
    some
      { range := ⟨start, closing + 1⟩
        header := ⟨start, opening⟩
        modifiers := code.classModifiers start keyword
        name := ⟨nameStart, nameStop⟩
        typeParams
        tail := ⟨tailStart, opening⟩
        opening, closing
        members := (code.memberRanges (opening + 1) closing).map (code.memberLayout name) }

/-- The layouts of all classes, in the order of their keywords. -/
def classLayouts (code : Code) : List ClassLayout :=
  (wordPositions "class".toList code).filterMap code.classAt?

end Code

/-- The number of layouts that enclose this one and are not in the same place. -/
def ClassLayout.nesting (layouts : List ClassLayout) (layout : ClassLayout) : Nat :=
  layouts.countP fun outer => outer.range != layout.range && outer.range.encloses layout.range

end ClassRefactor
