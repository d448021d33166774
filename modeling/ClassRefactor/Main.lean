import ClassRefactor.Command.Program

/-!
# The command line

Reads what a run needs from disk, lets the program decide, and carries out its effect.
-/

namespace ClassRefactor.CommandLine

/-- The directory or file at a path. Only regular files and directories are taken in. -/
partial def load (name path : String) : IO (Except ReadError Entry) := do
  let place ← IO.FS.realPath path
  if ← place.isDir then
    let mut entries : List Entry := []
    for child in ← place.readDir do
      if let .ok e ← load child.fileName (Path.join path child.fileName) then
        entries := e :: entries
    return .ok (.directory name entries)
  else if ← place.pathExists then
    return .ok (.file name (.ofBytes (← IO.FS.readBinFile path)))
  else return .error .missing

/-- The file at a path, or an error if it cannot be read. -/
def loadPath (path : String) : IO (Except ReadError Entry) := do
  try load path path catch _ => return .error .missing

/-- The current directory with the files that may hold its configuration. -/
def loadRoot : IO Entry := do
  let mut root := Entry.emptyRoot
  for name in Config.fileNames do
    if let .ok (.file _ content) ← loadPath name then root := root.put content [name]
  return root

/-- The configuration of a run. -/
def loadConfig (environment : Environment) (named : Option String) :
    IO (Except CommandError Config) := do
  match named, environment.configPath with
  | some path, _ =>
    return (Config.read path (← loadPath path)).mapError (.namedConfig path)
  | none, some path => return (Config.read path (← loadPath path)).mapError .config
  | none, none => return Program.config (← loadRoot) environment none

/-- Opens a file to add to it, if that is possible. -/
def openLog (path : String) : IO (Option IO.FS.Handle) := do
  try return some (← IO.FS.Handle.mk path .append) catch _ => return none

/-- Replaces a file by way of a new file beside it. -/
def save (path : String) (t : Text) : IO Unit := do
  let fresh := path ++ ".new"
  IO.FS.writeFile fresh (.ofList t)
  IO.FS.rename fresh path

/-- Carries out the effect of a run. -/
def carryOut (log : Option IO.FS.Handle) (effect : Effect) : IO UInt32 := do
  if let some (_, lines) := effect.log then
    if let some handle := log then handle.putStr lines
  if let some (path, t) := effect.saved then save path t
  IO.eprint effect.stderr
  IO.print effect.stdout
  return effect.code.toUInt32

def run (named : Option String) (command : Command) : IO UInt32 := do
  let environment : Environment :=
    { configPath := ← IO.getEnv Config.pathVariable
      logDirectives := ← IO.getEnv LogFilter.environmentVariable }
  match ← loadConfig environment named with
  | .error e => carryOut none (.ofError e)
  | .ok config =>
    match config.logging.filter? environment.logDirectives with
    | none => carryOut none .ofBrokenFilter
    | some filter =>
      let log ← config.logging.file.elim (pure none) openLog
      let journal := Journal.start config.logging filter log.isSome
      carryOut log (.ofCommand config journal (← loadPath command.target) command)

end ClassRefactor.CommandLine

open ClassRefactor in
def main (arguments : List String) : IO UInt32 :=
  match Request.ofArguments arguments with
  | .error e => CommandLine.carryOut none (.ofUsageError e)
  | .ok (.run named command) => CommandLine.run named command
  | .ok request => CommandLine.carryOut none (.ofRequest request)
