/-!
# Configuration

The settings of the tools, with their defaults.
-/

namespace ClassRefactor

structure LoggingConfig where
  /-- A level, or directives that give levels to components. -/
  level : String := "warn"
  /-- Write events as JSON. -/
  json : Bool := false
  /-- Write events to standard error. -/
  stderr : Bool := true
  /-- Append events to this file. -/
  file : Option String := none
deriving DecidableEq, Repr

/-- Which files a check reads. -/
structure CheckConfig where
  extensions : List String := ["cs"]
  /-- Patterns of paths that are left out. -/
  exclude : List String := ["**/bin/**", "**/obj/**"]
deriving DecidableEq, Repr

structure Config where
  logging : LoggingConfig := {}
  check : CheckConfig := {}
  /-- The number of unchanged lines around each hunk of a preview. -/
  contextRadius : Nat := 3
deriving DecidableEq, Repr

end ClassRefactor
