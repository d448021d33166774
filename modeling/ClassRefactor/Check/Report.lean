import ClassRefactor.Action.Refactor
import ClassRefactor.Json.Value
import ClassRefactor.Text.Line

/-!
# Reports

What a check finds: the classes whose constructor does not receive and assign every dependency.
-/

namespace ClassRefactor

/-- A class that lacks something. -/
structure Finding where
  file : String
  line : Nat
  className : String
  hasConstructor : Bool
  missingParameters : List String
  unassignedFields : List String
  collisions : List Collision
deriving Repr

/-- What is found in one file or in a directory. -/
structure Report where
  root : String
  filesScanned : Nat
  classesScanned : Nat
  findings : List Finding
deriving Repr

namespace Finding

/-- What is found about a class of a text. -/
def ofClass? (file : String) (text : Text) (c : ParsedClass) : Option Finding :=
  let a := c.node.analyze
  if a.isApplicable then
    some
      { file, line := text.lineNumber c.layout.range.start, className := a.className
        hasConstructor := a.hasConstructor, missingParameters := a.missingParameters
        unassignedFields := a.unassignedFields, collisions := a.collisions }
  else none

/-- A line for names, unless there are none. -/
def namesLine (label : String) (names : List String) : String :=
  if names.isEmpty then "" else "  " ++ label ++ ": " ++ joinWith ", " names ++ "\n"

def collisionLine (c : Collision) : String :=
  "  warning: fields " ++ joinWith ", " c.fieldNames ++ " all map to parameter `" ++
    c.parameterName ++ "`\n"

def render (f : Finding) : String :=
  let verdict :=
    if f.hasConstructor then "constructor is missing dependencies"
    else "no constructor injects its read-only fields"
  f.file ++ ":" ++ toString f.line ++ ": class " ++ f.className ++ ": " ++ verdict ++ "\n" ++
    namesLine "missing parameters" f.missingParameters ++
    namesLine "unassigned fields" f.unassignedFields ++ concat (f.collisions.map collisionLine)

def json (f : Finding) : JsonValue :=
  .object <|
    [("file", .text f.file), ("line", .number f.line), ("class", .text f.className),
      ("has_constructor", .boolean f.hasConstructor),
      ("missing_parameters", .texts f.missingParameters),
      ("unassigned_fields", .texts f.unassignedFields)] ++
    if f.collisions.isEmpty then []
    else
      [("collisions", .list (f.collisions.map fun c =>
        .object [("parameter_name", .text c.parameterName), ("field_names", .texts c.fieldNames)]))]

end Finding

/-- What is found in a text, class by class. -/
def SourceFile.findings (f : SourceFile) (file : String) (text : Text) : List Finding :=
  f.classes.filterMap (Finding.ofClass? file text)

namespace Report

def isClean (r : Report) : Bool := r.findings.isEmpty

/-- One of two words, by whether there is exactly one thing. -/
def plural (count : Nat) (one many : String) : String := if count == 1 then one else many

def summary (r : Report) : String :=
  let found := r.findings.length
  "checked " ++ toString r.filesScanned ++ " file" ++ plural r.filesScanned "" "s" ++ " (" ++
    toString r.classesScanned ++ " class" ++ plural r.classesScanned "" "es" ++ "): " ++
    toString found ++ " need" ++ plural found "s" "" ++ " constructor updates\n"

/-- The findings one after another, and a summary. -/
def render (r : Report) : String := concat (r.findings.map Finding.render) ++ r.summary

def json (r : Report) : JsonValue :=
  .object [("root", .text r.root), ("files_scanned", .number r.filesScanned),
    ("classes_scanned", .number r.classesScanned),
    ("findings", .list (r.findings.map Finding.json))]

end Report

end ClassRefactor
