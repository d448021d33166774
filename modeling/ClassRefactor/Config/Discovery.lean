import ClassRefactor.Config.Decode

/-!
# Finding the configuration

The environment may name the configuration of a project. Otherwise it is the first file of a known
name in the root directory. Without one, the defaults hold.
-/

namespace ClassRefactor

namespace Config

/-- The environment variable that names a configuration. -/
def pathVariable : String := "DEPCON_CONFIG_PATH"

/-- The file names that are tried, in order. -/
def fileNames : List String := ["depcon.toml", ".depcon.toml"]

/-- The configuration file of a project: how its path is shown, and what the path leads to. A path
that leads somewhere is shown without detours. -/
def discover (root : Entry) (environment : Option String) :
    Option (String × Except ReadError Entry) :=
  match environment with
  | some "" => some ("", .ok root)
  | some path =>
    match root.locate path with
    | .ok (e, names) => some (joinWith "/" names, .ok e)
    | .error e => some (path, .error e)
  | none =>
    (fileNames.filterMap root.child?).find? Entry.isFile |>.map fun e => (e.name, .ok e)

/-- The configuration of a project, and the path of its file if there is one. -/
def load (root : Entry) (environment : Option String) :
    Except ConfigError (Config × Option String) :=
  match discover root environment with
  | none => .ok ({}, none)
  | some (path, entry) => (read path entry).map fun config => (config, some path)

end Config

end ClassRefactor
