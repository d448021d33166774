import ClassRefactor.Splice.Style
import ClassRefactor.Tree.Render

/-!
# Additions to a class

New parameters, statements and members are written into the source at the end of what is there, so
that all text around them stays as it is.
-/

namespace ClassRefactor

/-- A range of the source and the text to put there. -/
structure Replacement where
  range : Range
  text : String
deriving DecidableEq, Repr

namespace CallableLayout

/-- What to write between parameters: what stands between the last two if that is only a comma and
white space, a new line if the only parameter begins one, and a comma and a space otherwise. -/
def parameterSeparator (c : CallableLayout) (text : Text) (style : Style) : String :=
  match c.params.reverse with
  | [] => ", "
  | [only] =>
    if (text.slice (c.opening + 1) only.range.start).contains '\n' then
      "," ++ style.newline ++ text.lineIndent only.range.start
    else ", "
  | last :: earlier :: _ =>
    let between := text.slice earlier.range.stop last.range.start
    if between.trim == [','] then .ofList between else ", "

/-- Adds parameters after those that are there. -/
def appendParameters (c : CallableLayout) (text : Text) (style : Style) (added : List Parameter) :
    Replacement :=
  match c.params.getLast? with
  | none => ⟨.emptyAt c.closing, renderParameters added⟩
  | some last =>
    let separator := c.parameterSeparator text style
    ⟨.emptyAt last.range.stop, concat (added.map fun p => separator ++ p.render)⟩

end CallableLayout

/-- The white space before `stop` if nothing else stands there from `start` on, and otherwise the
empty range at `stop`. -/
def Text.gapBefore (text : Text) (start stop : Nat) : Range :=
  if (text.slice start stop).all isWhite then ⟨start, stop⟩ else .emptyAt stop

namespace BlockLayout

/-- The indentation of new statements: that of the last statement that begins a line, or one unit
deeper than the line of the opening brace. -/
def statementIndent (b : BlockLayout) (text : Text) (style : Style) : String :=
  match b.statements.reverse.find? fun r => text.startsLine r.start with
  | some r => text.lineIndent r.start
  | none => text.lineIndent b.opening ++ style.indentUnit

/-- Adds statements after those that are there. A closing brace that shares its line with something
before it moves to a line of its own. -/
def appendStatements (b : BlockLayout) (text : Text) (style : Style) (added : List Statement) :
    Replacement :=
  let indent := b.statementIndent text style
  if text.startsLine b.closing then
    ⟨.emptyAt (text.lineStart b.closing),
      concat (added.map fun s => indent ++ s.render ++ style.newline)⟩
  else
    ⟨text.gapBefore ((b.statements.getLast?.map Range.stop).getD (b.opening + 1)) b.closing,
      concat (added.map fun s => style.newline ++ indent ++ s.render) ++ style.newline ++
        text.lineIndent b.opening⟩

end BlockLayout

/-- Members with a blank line before each, the first one only if something precedes it. -/
def renderAppended (style : Style) (follows : Bool) : List Member → String
  | [] => ""
  | m :: rest =>
    (if follows then style.newline else "") ++ m.render style ++ style.newline ++
      renderAppended style true rest

namespace ParsedClass

/-- Adds members at the end of a class. -/
def appendMembers (c : ParsedClass) (text : Text) (style : Style) (added : List Member) :
    Replacement :=
  let layout := c.layout
  let closing := layout.closing
  if text.startsLine closing && layout.opening < text.lineStart closing then
    ⟨.emptyAt (text.lineStart closing), renderAppended style (!layout.members.isEmpty) added⟩
  else
    ⟨text.gapBefore
        ((layout.members.getLast?.map (·.range.stop)).getD (layout.opening + 1)) closing,
      concat (added.map fun m => style.newline ++ m.render style) ++ style.newline ++ c.indent text⟩

/-- Each piece of text that ends with a member, trimmed and on a line of its own. -/
def memberLines (text : Text) (style : Style) (start : Nat) : List MemberLayout → String
  | [] => ""
  | m :: rest =>
    style.indent ++ .ofList (text.slice start m.range.stop).trim ++ style.newline ++
      memberLines text style m.range.stop rest

/-- Lays a class on one line out over several, and adds members at its end. Members keep their text
and the comments before them. -/
def expandOneLine (c : ParsedClass) (text : Text) (style : Style) (added : List Member) :
    Replacement :=
  let layout := c.layout
  let header := text.slice layout.header.start layout.opening
  let bodyStart := layout.opening + 1
  let lastStop := (layout.members.getLast?.map (·.range.stop)).getD bodyStart
  let trailing := (text.slice lastStop layout.closing).trim
  let follows := bodyStart < lastStop || !trailing.isEmpty
  ⟨⟨layout.header.start + header.trimEnd.size, layout.closing + 1⟩,
    style.openBrace (c.indent text) ++ style.newline ++
      memberLines text style bodyStart layout.members ++
      (if trailing.isEmpty then "" else style.indent ++ .ofList trailing ++ style.newline) ++
      renderAppended style follows added ++ c.indent text ++ "\x7d"⟩

end ParsedClass

end ClassRefactor
