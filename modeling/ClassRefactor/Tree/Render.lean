import ClassRefactor.Tree.Class
import ClassRefactor.Tree.Style

/-!
# Trees as source text
-/

namespace ClassRefactor

/-- Modifiers with a space after each. -/
def renderModifiers (modifiers : List String) : String := concat (modifiers.map (· ++ " "))

def Parameter.render (p : Parameter) : String :=
  renderModifiers p.modifiers ++ p.type.render ++ " " ++ p.name ++
    p.default.elim "" fun d => " = " ++ d.text

def renderParameters (parameters : List Parameter) : String :=
  joinWith ", " (parameters.map Parameter.render)

def Statement.render : Statement → String
  | .assignment target value => target ++ " = " ++ value ++ ";"
  | .other text => text.text

/-- An opening brace after a header whose line has the given indentation. -/
def Style.openBrace (style : Style) (indent : String) : String :=
  if style.braceOnNewLine then style.newline ++ indent ++ "\x7b" else " \x7b"

def Body.render (style : Style) : Body → String
  | .block statements =>
    style.openBrace style.indent ++
      concat (statements.map fun s => style.newline ++ style.nested ++ s.render) ++
      style.newline ++ style.indent ++ "\x7d"
  | .expression text => " => " ++ text.text ++ ";"
  | .absent => ";"

def Constructor.render (style : Style) (c : Constructor) : String :=
  style.indent ++ renderModifiers c.modifiers ++ c.name ++ "(" ++ renderParameters c.parameters ++
    ")" ++ (c.initializer.elim "" fun i => " : " ++ i.text) ++ c.body.render style

/-- What a method has in front of its name: modifiers and return type. -/
def Method.renderLead (m : Method) : String :=
  renderModifiers m.modifiers ++ m.returnType.render ++ " "

def Method.render (style : Style) (m : Method) : String :=
  style.indent ++ m.renderLead ++ m.name ++ m.typeParams.getD "" ++ "(" ++
    renderParameters m.parameters ++ ")" ++ (m.constraints.elim "" fun c => " " ++ c.text) ++
    m.body.render style

def FieldVariable.render (v : FieldVariable) : String :=
  v.name ++ v.initializer.elim "" fun i => " = " ++ i.text

def Field.render (style : Style) (f : Field) : String :=
  style.indent ++ renderModifiers f.modifiers ++ f.type.render ++ " " ++
    joinWith ", " (f.declarators.map FieldVariable.render) ++ ";"

def Member.render (style : Style) : Member → String
  | .field f => f.render style
  | .constructor c => c.render style
  | .method m => m.render style
  | .other text => style.indent ++ text.text

/-- A class whose own line has the given indentation, with a blank line between its members. -/
def ClassNode.render (style : Style) (classIndent : String) (c : ClassNode) : String :=
  classIndent ++ renderModifiers c.modifiers ++ "class " ++ c.name ++ c.typeParams.getD "" ++
    (c.bases.elim "" fun b => " " ++ b.text) ++ style.openBrace classIndent ++
    joinWith style.newline (c.members.map fun m => style.newline ++ m.render style) ++
    style.newline ++ classIndent ++ "\x7d"

end ClassRefactor
