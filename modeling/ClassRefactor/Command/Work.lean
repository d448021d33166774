import ClassRefactor.Check.Visit
import ClassRefactor.Config.Discovery
import ClassRefactor.Edit.Preview

/-!
# Work

A command reads files, records events and either fails or has an output. What it recorded before it
failed is kept.
-/

namespace ClassRefactor

/-- Why a command fails. -/
inductive CommandError where
  | config (error : ConfigError)
  /-- The configuration that the user named. -/
  | namedConfig (path : String) (error : ConfigError)
  | unreadable (path : String) (error : ReadError)
  | missing (path : String)
  | cursor (error : CursorError)
  | cursorRequired
  | targetRequired
  | noSuchClass (name path : String)
  | noSuchMethod (name : String)
  | ambiguousMethod (name : String) (count : Nat)
  | refactor (path : String) (error : RefactorError)
  | edit (error : EditError)
  | pattern (error : BadPattern)
  | fault (fault : Fault)
deriving DecidableEq, Repr

/-- The error of a configuration together with its cause. -/
def ConfigError.fullMessage (e : ConfigError) : String :=
  match e with
  | .io _ cause => e.message ++ ": " ++ cause.message
  | _ => e.message

namespace CommandError

def message : CommandError → String
  | .config error => error.fullMessage
  | .namedConfig path error => "failed to load config " ++ path ++ ": " ++ error.fullMessage
  | .unreadable path error => "failed to read " ++ path ++ ": " ++ error.message
  | .missing path => path ++ " does not exist"
  | .cursor error => error.message
  | .cursorRequired => "a cursor position is required (--offset, or --line with --column)"
  | .targetRequired =>
    "pass --method NAME or a cursor position (--offset, or --line with --column)"
  | .noSuchClass name path => "no class named `" ++ name ++ "` in " ++ path
  | .noSuchMethod name => "no method named `" ++ name ++ "` found"
  | .ambiguousMethod name count =>
    "method name `" ++ name ++ "` is ambiguous (" ++ toString count ++
      " matches); pass --class or a cursor position"
  | .refactor path error => path ++ ": " ++ error.message
  | .edit error => error.message
  | .pattern error => error.message
  | .fault (.disorder start stop) => s!"invalid range: {start}..{stop}"
  | .fault (.offBoundary start stop) => s!"no text at {start}..{stop}"

/-- A fault is the program's own failure and has an exit code of its own. -/
def exitCode : CommandError → Nat
  | .fault _ => 101
  | _ => 2

def ofCheck : CheckError → CommandError
  | .missing path => .missing path
  | .unreadable path error => .unreadable path error
  | .fault f => .fault f

end CommandError

/-- What a command prints, its exit code, and the file that it saves. -/
structure Output where
  stdout : String := ""
  stderr : String := ""
  code : Nat := 0
  saved : Option (String × Text) := none
deriving DecidableEq, Repr

/-- Work that records events and may fail. -/
abbrev Work (α : Type) : Type := ExceptT CommandError (StateM (List Event)) α

namespace Work

def record (events : List Event) : Work Unit := modify (· ++ events)

/-- Fails if a result is an error. -/
def orFail {ε α : Type} (error : ε → CommandError) (result : Except ε α) : Work α :=
  match result with
  | .ok a => pure a
  | .error e => throw (error e)

/-- The output of some work, a failure included, and the events that were recorded. -/
def finish (work : Work Output) : Output × List Event :=
  match work.run [] with
  | (.ok output, events) => (output, events)
  | (.error e, events) => ({ stderr := e.message ++ "\n", code := e.exitCode }, events)

end Work

end ClassRefactor
