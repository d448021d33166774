import ClassRefactor.Config.LogFilter
import ClassRefactor.Json.Value

/-!
# Events

What the tools record about their work. An event belongs to a component, whose name the directives
of a log filter refer to.
-/

namespace ClassRefactor

/-- The parts of the program that record events. -/
inductive Component where
  | reading
  | synthesis
  | conversion
  | offering
  | settings
  | checking
  | saving
deriving DecidableEq, Repr

namespace Component

def name : Component → String
  | .reading => "depcon_syntax::parser"
  | .synthesis => "depcon_refactor::dependency_constructor"
  | .conversion => "depcon_refactor::method_mode"
  | .offering => "depcon_refactor::actions"
  | .settings => "depcon_config"
  | .checking => "depcon_cli::check"
  | .saving => "depcon_cli::refactor_apply"

/-- The area that the events of a component state. -/
def area : Component → String
  | .reading => "depcon.syntax"
  | .synthesis => "depcon.refactor"
  | .conversion => "depcon.refactor"
  | .offering => "depcon.refactor"
  | .settings => "depcon.config"
  | .checking => "depcon.cli"
  | .saving => "depcon.cli"

end Component

structure Event where
  component : Component
  level : LogLevel
  message : String
  details : List (String × JsonValue)

namespace Event

/-- The message, the area and the details of an event. -/
def fields (e : Event) : List (String × JsonValue) :=
  ("message", .text e.message) :: ("target", .text e.component.area) :: e.details

def isEnabled (f : LogFilter) (e : Event) : Bool :=
  f.enables e.component.name (e.fields.map Prod.fst) e.level

def levelWord (e : Event) : String := .ofList (e.level.name.toList.map Char.toUpper)

/-- An event as a line of JSON. -/
def jsonLine (e : Event) : String :=
  JsonValue.compact (.object [("level", .text e.levelWord), ("fields", .object e.fields),
    ("target", .text e.component.name)])

/-- An event as a line to read. -/
def plainLine (e : Event) : String :=
  let details := e.fields.tail.map fun (key, v) => " " ++ key ++ "=" ++ v.compact
  e.levelWord ++ " " ++ e.component.name ++ ": " ++ e.message ++ concat details

/-- Events as lines of a log. -/
def lines (json : Bool) (events : List Event) : String :=
  concat (events.map fun e => (if json then e.jsonLine else e.plainLine) ++ "\n")

end Event

end ClassRefactor
