import ClassRefactor.Check.Report
import ClassRefactor.Config.SourceFilter
import ClassRefactor.Files.Path
import ClassRefactor.Journal.Refactor
import ClassRefactor.Source.Cursor

/-!
# Checking files

A check reads one file, or every source below a directory. Directories are walked depth first, the
entries of each in ascending order of their names, and excluded directories are not entered. Files
that are not text are passed over.
-/

namespace ClassRefactor

mutual

/-- The sources of an entry of the directory at the relative path `above`, with their own relative
paths. -/
def Entry.sourcesFrom (filter : SourceFilter) (above : String) : Entry → List (String × Content)
  | .file name content =>
    if filter.accepts (Path.join above name) then [(Path.join above name, content)] else []
  | .directory name entries =>
    if filter.isExcluded (Path.join above name) then []
    else Entry.sourcesOfAll filter (Path.join above name) entries

def Entry.sourcesOfAll (filter : SourceFilter) (above : String) :
    List Entry → List (String × Content)
  | [] => []
  | e :: rest => e.sourcesFrom filter above ++ Entry.sourcesOfAll filter above rest

end

/-- The sources below a directory with their relative paths, in the order of the walk. -/
def Entry.sources (filter : SourceFilter) (directory : Entry) : List (String × Content) :=
  Entry.sourcesOfAll filter "" directory.sorted.entries

/-- A file that a check comes to. -/
structure Visit where
  /-- The path as reports show it. -/
  file : String
  /-- The path that leads to the file. -/
  path : String
  /-- What is read there, if it is text. -/
  reading : Option (Text × SourceFile)

namespace Visit

def read (file path : String) (content : Content) : Except Fault Visit :=
  match content with
  | .text t => do return { file, path, reading := some (t, ← SourceFile.parse t) }
  | .binary _ => .ok { file, path, reading := none }

def findings (v : Visit) : List Finding :=
  v.reading.elim [] fun (t, source) => source.findings v.file t

def classCount (v : Visit) : Nat := v.reading.elim 0 fun (_, source) => source.classes.length

/-- What checking a class records. -/
def classEvents (v : Visit) (c : ClassNode) : List Event :=
  c.planEvents ++ (Candidate.collisions c.candidates).map fun collision =>
    ⟨.checking, .warn, "read-only fields share a parameter name",
      [("file", .text v.file), ("class", .text c.name)] ++ collision.details⟩

def events (v : Visit) : List Event :=
  match v.reading with
  | some (_, source) => source.readingEvents ++ source.classes.flatMap fun c => v.classEvents c.node
  | none =>
    [⟨.checking, .warn, "skipping file that is not valid UTF-8 text",
      [("path", .text v.path), ("error", .text ReadError.notText.message)]⟩]

end Visit

/-- The report on some files. -/
def Report.ofVisits (root : String) (visits : List Visit) : Report :=
  { root
    filesScanned := visits.countP fun v => v.reading.isSome
    classesScanned := visits.foldl (fun n v => n + v.classCount) 0
    findings := visits.flatMap Visit.findings }

/-- Why a check has no result. -/
inductive CheckError where
  | missing (path : String)
  | unreadable (path : String) (error : ReadError)
  | fault (fault : Fault)
deriving DecidableEq, Repr

/-- Visits the files of a check, where `found` is what the path leads to. A single file is visited
whatever its name. -/
def checkVisits (filter : SourceFilter) (path : String) (found : Except ReadError Entry) :
    Except CheckError (List Visit) :=
  match found with
  | .ok (.file _ content@(.text _)) =>
    ((Visit.read (displayPath path) path content).mapError .fault).map fun v => [v]
  | .ok (.file _ (.binary _)) => .error (.unreadable path .notText)
  | .ok directory@(.directory _ _) =>
    ((directory.sources filter).mapM fun (relative, content) =>
      Visit.read (displayPath relative) (Path.join path relative) content).mapError .fault
  | .error _ => .error (.missing path)

/-- Checks what a path leads to. -/
def check (filter : SourceFilter) (path : String) (found : Except ReadError Entry) :
    Except CheckError Report :=
  (checkVisits filter path found).map (Report.ofVisits path)

end ClassRefactor
