import ClassRefactor.Command.Invocation
import ClassRefactor.Command.Work

/-!
# Running commands

What each command does with the files that its paths lead to.
-/

namespace ClassRefactor

/-- A source file that a command works on. -/
structure Snapshot where
  path : String
  text : Text

namespace Snapshot

/-- The name of the file in edits and previews. -/
def id (s : Snapshot) : String := displayPath s.path

def read (path : String) (found : Except ReadError Entry) : Work Snapshot := do
  return ⟨path, ← Work.orFail (.unreadable path) (found >>= Entry.text)⟩

def parse (s : Snapshot) : Work SourceFile := do
  let file ← Work.orFail .fault (SourceFile.parse s.text)
  Work.record file.readingEvents
  return file

/-- The offset of a cursor, if one is given. -/
def offset? (s : Snapshot) (c : Cursor) : Work (Option Nat) :=
  Work.orFail .cursor (c.locate s.path s.text)

def preview (s : Snapshot) (w : WorkspaceEdit) (radius : Nat) : Work Preview :=
  Work.orFail .edit (FileMap.preview [(s.id, s.text)] w radius)

def apply (s : Snapshot) (w : WorkspaceEdit) : Work Text :=
  Work.orFail .edit (s.text.applyEdits w.edits)

/-- A file was saved with its new text. -/
def savingEvents (s : Snapshot) (w : WorkspaceEdit) : List Event :=
  [⟨.saving, .info, "rewrote file",
    [("path", .text s.path), ("edits", .number w.edits.length)]⟩]

end Snapshot

def FilePreview.json (f : FilePreview) : JsonValue :=
  .object [("file", .text f.file), ("original", .text (.ofList f.before)),
    ("modified", .text (.ofList f.after)), ("unified_diff", .text f.diff),
    ("edit_count", .number f.editCount)]

def Preview.json (p : Preview) : JsonValue :=
  .object [("total_files", .number p.files.length), ("total_edits", .number p.totalEdits),
    ("files", .list (p.files.map FilePreview.json))]

def Action.json (a : Action) : JsonValue :=
  .object [("title", .text a.kind.title), ("kind", .text a.kind.key), ("target", .text a.target)]

namespace Command

/-- Gives out edits of a file. -/
def emit (s : Snapshot) (w : WorkspaceEdit) (radius : Nat) : OutputMode → Work Output
  | .print => do return { stdout := .ofList (← s.apply w) }
  | .diff => do
    return { stdout := concat ((← s.preview w radius).files.map FilePreview.diff) }
  | .json => do return { stdout := (← s.preview w radius).json.pretty "" ++ "\n" }
  | .inPlace => do
    let text ← s.apply w
    Work.record (s.savingEvents w)
    let count := w.edits.length
    return {
      stdout :=
        "updated " ++ s.path ++ " (" ++ toString count ++ " edit" ++ Report.plural count "" "s" ++
          ")\n"
      saved := some (s.path, text) }

/-- Gives out the result of a refactoring. One that does not apply leaves the file as it is. -/
def conclude (s : Snapshot) (result : Except RefactorError WorkspaceEdit) (output : OutputMode)
    (radius : Nat) : Work Output :=
  match result with
  | .ok w => emit s w radius output
  | .error .notApplicable =>
    return {
      stdout := if output == .print then .ofList s.text else ""
      stderr := s.path ++ ": nothing to change\n" }
  | .error e => throw (.refactor s.path e)

/-- The constructors that a file needs: of the class of a name, of the class at a cursor, or of
every class. -/
def ctorResult (s : Snapshot) (className : Option String) (cursor : Cursor) :
    Work (Except RefactorError WorkspaceEdit) :=
  match className with
  | some name => do
    let file ← s.parse
    match file.classNamed? name with
    | none => throw (.noSuchClass name s.path)
    | some c =>
      Work.record c.node.resolutionEvents
      return c.resolve false s.id s.text
  | none => do
    match ← s.offset? cursor with
    | some offset =>
      let file ← s.parse
      Work.record (file.resolutionEventsAt offset)
      return file.resolveAt false s.id s.text offset
    | none =>
      let file ← s.parse
      Work.record (file.classes.flatMap fun c => c.node.resolutionEvents)
      return file.resolveEvery s.id s.text

/-- The conversion of the only method of a name, or of the method at a cursor. -/
def convertResult (s : Snapshot) (target : MethodMode) (method className : Option String)
    (cursor : Cursor) : Work (Except RefactorError WorkspaceEdit) :=
  match method with
  | some name => do
    let file ← s.parse
    match file.methodsNamed className name with
    | [] => throw (.noSuchMethod name)
    | [(c, index)] =>
      Work.record (c.conversionEvents index target)
      return c.convertMethod false s.id s.text index target
    | many => throw (.ambiguousMethod name many.length)
  | none => do
    match ← s.offset? cursor with
    | none => throw .targetRequired
    | some offset =>
      let file ← s.parse
      Work.record (file.conversionEventsAt offset target)
      return file.convertAt false s.id s.text offset target

def actionsOutput (s : Snapshot) (cursor : Cursor) (json : Bool) : Work Output := do
  match ← s.offset? cursor with
  | none => throw .cursorRequired
  | some offset =>
    let file ← s.parse
    Work.record (file.offerEvents offset)
    let actions := file.actionsAt false offset
    if json then return { stdout := (JsonValue.list (actions.map Action.json)).pretty "" ++ "\n" }
    else if actions.isEmpty then
      return { stderr := "no refactorings available at this position\n" }
    else
      return { stdout := concat (actions.map fun a => a.kind.title ++ ": " ++ a.target ++ "\n") }

def checkOutput (config : Config) (path : String) (found : Except ReadError Entry) (json : Bool) :
    Work Output := do
  let filter ← Work.orFail .pattern config.check.filter
  let visits ← Work.orFail .ofCheck (checkVisits filter path found)
  Work.record (visits.flatMap Visit.events)
  let report := Report.ofVisits path visits
  return {
    stdout := if json then report.json.pretty "" ++ "\n" else report.render
    code := if report.isClean then 0 else 1 }

/-- The path that a command works on. -/
def target : Command → String
  | .ctor file _ _ _ => file
  | .convert file _ _ _ _ _ => file
  | .actions file _ _ => file
  | .check path _ => path

/-- Runs a command, where `found` is what its path leads to. -/
def run (config : Config) (found : Except ReadError Entry) (command : Command) : Work Output :=
  match command with
  | .ctor file className cursor output => do
    let s ← Snapshot.read file found
    conclude s (← ctorResult s className cursor) output config.contextRadius
  | .convert file target method className cursor output => do
    let s ← Snapshot.read file found
    conclude s (← convertResult s target method className cursor) output config.contextRadius
  | .actions file cursor json => do
    actionsOutput (← Snapshot.read file found) cursor json
  | .check path json => checkOutput config path found json

end Command

end ClassRefactor
