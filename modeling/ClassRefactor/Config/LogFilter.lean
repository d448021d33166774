import ClassRefactor.Config.Basic
import ClassRefactor.Config.Directive
import ClassRefactor.Text.Join

/-!
# Log filters

A filter is a list of directives. The most specific directive that concerns an event decides whether
it is logged, and what no directive concerns is not logged.
-/

namespace ClassRefactor

/-- Directives from the most to the least specific: those that apply everywhere, and those that
concern spans or fields. -/
structure LogFilter where
  statics : List Directive
  dynamics : List Directive := []
deriving DecidableEq, Repr

namespace LogFilter

/-- The environment variable that holds directives. -/
def environmentVariable : String := "RUST_LOG"

/-- Puts a directive in its place, instead of one with the same target, span and field. -/
def insert (d : Directive) : List Directive → List Directive
  | [] => [d]
  | e :: rest =>
    match d.specificity e with
    | .gt => d :: e :: rest
    | .eq => d :: rest
    | .lt => e :: insert d rest

def insertAll (directives : List Directive) : List Directive :=
  directives.foldl (fun l d => insert d l) []

/-- The filter of some directives. -/
def ofDirectives (directives : List Directive) : LogFilter :=
  let (dynamics, plain) := directives.partition Directive.isDynamic
  { statics := insertAll (plain ++ dynamics.filter Directive.isStatic)
    dynamics := insertAll dynamics }

/-- Reads directives that commas separate. The first fault decides. -/
def parse (s : String) : Except DirectiveFault LogFilter := do
  let parts := (Text.splitAtChar ',' s.toList).filter fun p => !p.isEmpty
  return ofDirectives (← parts.mapM Directive.parse)

def render (f : LogFilter) : String :=
  joinWith "," ((f.statics ++ f.dynamics).map Directive.render)

/-- Whether an event of a component with some fields is logged. The most specific directive that
concerns it decides. -/
def enables (f : LogFilter) (component : String) (fields : List String) (level : LogLevel) : Bool :=
  match f.statics.find? fun d => d.concerns component fields with
  | none => false
  | some d => level.rank ≤ d.level.rank

/-- What is read, or what stands in for it if the text is malformed. There is nothing if a part of a
directive would begin or end within a character. -/
def orElse (read : Except DirectiveFault LogFilter) (otherwise : Unit → Option LogFilter) :
    Option LogFilter :=
  match read with
  | .ok f => some f
  | .error .malformed => otherwise ()
  | .error .brokenCharacter => none

end LogFilter

namespace LoggingConfig

/-- The level of a configuration as directives; a blank one is the default. -/
def directives (level : String) : String :=
  let trimmed := Text.trim level.toList
  if trimmed.isEmpty then "warn"
  else
    let word : String := .ofList (trimmed.map Char.toLower)
    if word == "warning" then "warn"
    else if ["trace", "debug", "info", "warn", "error"].contains word then word
    else .ofList trimmed

/-- The filter of the configured level alone. -/
def ownFilter? (c : LoggingConfig) : Option LogFilter :=
  LogFilter.orElse (LogFilter.parse (directives c.level)) fun _ =>
    some { statics := [{ level := .warn }] }

/-- The filter that is in effect: the configured level with the directives of the environment on
top. What is malformed is left out. -/
def filter? (c : LoggingConfig) (environment : Option String) : Option LogFilter :=
  let extra := Text.trim (environment.getD "").toList
  if extra.isEmpty then c.ownFilter?
  else
    let extra : String := .ofList extra
    LogFilter.orElse (LogFilter.parse (directives c.level ++ "," ++ extra)) fun _ =>
      LogFilter.orElse (LogFilter.parse extra) fun _ => c.ownFilter?

end LoggingConfig

end ClassRefactor
