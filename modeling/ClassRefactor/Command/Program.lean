import ClassRefactor.Command.Help
import ClassRefactor.Command.Run
import ClassRefactor.Journal.Basic

/-!
# The program

The program reads its arguments, loads its configuration, opens its log and runs a command. Here it
works on a directory tree that is given as a value, and what it writes is a new tree.
-/

namespace ClassRefactor

/-- What the program takes from its environment. -/
structure Environment where
  /-- The path of a configuration. -/
  configPath : Option String := none
  /-- Directives for the log filter. -/
  logDirectives : Option String := none

/-- What a run of the program does. -/
structure Effect where
  code : Nat := 0
  stdout : String := ""
  stderr : String := ""
  /-- A file and the text that is added to it. -/
  log : Option (String × String) := none
  /-- A file and its new text. -/
  saved : Option (String × Text) := none

namespace Effect

/-- What a run does that only shows a text. -/
def ofRequest : Request → Effect
  | .version => { stdout := "depcon 0.1.0\n" }
  | .help topic => { stdout := (HelpPage.page topic).render }
  | .nothing => { stderr := HelpPage.program.render, code := 2 }
  | .run _ _ => {}

def ofUsageError (e : UsageError) : Effect := { stderr := e.message ++ "\n", code := 2 }

/-- What a run does whose log directives break off within a character. -/
def ofBrokenFilter : Effect :=
  { stderr := "a part of a log directive ends within a character\n", code := 101 }

def ofError (e : CommandError) : Effect := { stderr := e.message ++ "\n", code := e.exitCode }

/-- What a command does, where `found` is what its path leads to. -/
def ofCommand (config : Config) (journal : Journal) (found : Except ReadError Entry)
    (command : Command) : Effect :=
  let (output, events) := (command.run config found).finish
  let lines := journal.lines events
  { code := output.code, stdout := output.stdout
    stderr := (if journal.stderr then lines else "") ++ output.stderr
    log := journal.file.map fun path => (path, lines)
    saved := output.saved }

end Effect

namespace Entry

/-- Adds text to the file at a path, or makes that file. A path that cannot be written is left. -/
def appendAt (root : Entry) (path : String) (t : Text) : Entry :=
  match root.writable? path with
  | none => root
  | some names =>
    match root.entryAt path with
    | .ok (.file _ content) => root.put (content.append t) names
    | _ => root.put (.text t) names

/-- Replaces the text of the file at a path. -/
def saveAt (root : Entry) (path : String) (t : Text) : Entry :=
  match root.writable? path with
  | none => root
  | some names => root.put (.text t) names

/-- The tree after a run. -/
def after (root : Entry) (e : Effect) : Entry :=
  let logged := e.log.elim root fun (path, lines) => root.appendAt path lines.toList
  e.saved.elim logged fun (path, t) => logged.saveAt path t

end Entry

namespace Program

/-- The configuration of a run: the one that the user names, or the one of the project. -/
def config (root : Entry) (environment : Environment) (named : Option String) :
    Except CommandError Config :=
  match named with
  | some path => (Config.read path (root.entryAt path)).mapError (.namedConfig path)
  | none => ((Config.load root environment.configPath).mapError .config).map Prod.fst

/-- Runs a command in a directory. The log is opened before the command looks at its files. -/
def runCommand (root : Entry) (environment : Environment) (named : Option String)
    (command : Command) : Effect :=
  match config root environment named with
  | .error e => .ofError e
  | .ok config =>
    match config.logging.filter? environment.logDirectives with
    | none => .ofBrokenFilter
    | some filter =>
      let canOpen := config.logging.file.any fun path => (root.writable? path).isSome
      let journal := Journal.start config.logging filter canOpen
      let opened := journal.file.elim root fun path => root.appendAt path []
      Effect.ofCommand config journal (opened.entryAt command.target) command

/-- Runs the program in a directory: what it does, and the directory afterwards. -/
def run (root : Entry) (environment : Environment) (arguments : List String) : Effect × Entry :=
  let effect := match Request.ofArguments arguments with
    | .error e => .ofUsageError e
    | .ok (.run named command) => runCommand root environment named command
    | .ok request => .ofRequest request
  (effect, root.after effect)

end Program

end ClassRefactor
