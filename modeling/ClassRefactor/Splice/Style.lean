import ClassRefactor.Source.File
import ClassRefactor.Text.Line
import ClassRefactor.Tree.Style

/-!
# The style of a class in its source
-/

namespace ClassRefactor.ParsedClass

/-- The indentation of the line that a class begins on. -/
def indent (c : ParsedClass) (text : Text) : String := text.lineIndent c.layout.range.start

/-- Whether the braces of a class stand on one line. -/
def isOneLine (c : ParsedClass) (text : Text) : Bool :=
  !(text.slice c.layout.opening c.layout.closing).contains '\n'

/-- Whether opening braces stand on lines of their own: that of the first member with a block
decides, and that of the class if there is none. -/
def bracesOnNewLine (c : ParsedClass) (text : Text) : Bool :=
  let blocks := c.layout.members.filterMap fun m => m.shape.callable?.bind (·.body.block?)
  match blocks with
  | block :: _ => text.startsLine block.opening
  | [] => text.startsLine c.layout.opening

/-- The style for new members of a class. A class on one line tells nothing about braces, and its
line ends are those of the file. Otherwise members are indented like the first to begin a line. -/
def style (c : ParsedClass) (text : Text) : Style :=
  let classText := text.slice c.layout.range.start c.layout.range.stop
  let classIndent := c.indent text
  if c.isOneLine text then
    let style := Style.infer classText classIndent true
    if text.includes ['\r', '\n'] then { style with newline := "\r\n" } else style
  else
    let style := Style.infer classText classIndent (c.bracesOnNewLine text)
    match c.layout.members.find? fun m => text.startsLine m.range.start with
    | none => style
    | some first =>
      let indent := text.lineIndent first.range.start
      let unit := match classIndent.toList.isPrefixOf? indent.toList with
        | none => style.indentUnit
        | some deeper => if deeper.isEmpty then style.indentUnit else .ofList deeper
      { style with indent, indentUnit := unit }

end ClassRefactor.ParsedClass
