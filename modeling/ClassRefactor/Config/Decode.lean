import ClassRefactor.Config.SourceFilter
import ClassRefactor.Files.Path
import ClassRefactor.Toml.Document

/-!
# Reading configurations

A configuration is a TOML document. Its entries are visited in the order of the document, and the
first problem is reported. A section may also be given as an array of its settings in their order.
-/

namespace ClassRefactor

/-- A setting that does not fit. -/
inductive DecodeError where
  | unknownField (name : String) (expected : List String)
  /-- A value of the wrong type: what it is, and what is expected. -/
  | invalidType (found expected : String)
  | invalidValue (found expected : String)
deriving DecidableEq, Repr

namespace DecodeError

/-- The fields that a message expects. -/
def alternatives : List String → String
  | [a] => "`" ++ a ++ "`"
  | [a, b] => "`" ++ a ++ "` or `" ++ b ++ "`"
  | names => "one of " ++ joinWith ", " (names.map fun n => "`" ++ n ++ "`")

def message : DecodeError → String
  | .unknownField name expected =>
    "unknown field `" ++ name ++ "`, expected " ++ alternatives expected
  | .invalidType found expected => "invalid type: " ++ found ++ ", expected " ++ expected
  | .invalidValue found expected => "invalid value: " ++ found ++ ", expected " ++ expected

end DecodeError

namespace Toml.Value

/-- A value as messages describe it. -/
def describe : Value → String
  | .string text => "string " ++ quoted text
  | .integer n => "integer `" ++ toString n ++ "`"
  | .float text => "floating point `" ++ text ++ "`"
  | .boolean b => "boolean `" ++ (if b then "true" else "false") ++ "`"
  | .array _ => "sequence"
  | .dateTime _ => "map"
  | .table _ => "map"

def mismatch {α : Type} (v : Value) (expected : String) : Except DecodeError α :=
  .error (.invalidType v.describe expected)

def toStringOf (expected : String) : Value → Except DecodeError String
  | .string text => .ok text
  | v => v.mismatch expected

def toBool : Value → Except DecodeError Bool
  | .boolean b => .ok b
  | v => v.mismatch "a boolean"

def toNat : Value → Except DecodeError Nat
  | .integer n => if 0 ≤ n then .ok n.toNat else .error (.invalidValue s!"integer `{n}`" "usize")
  | v => v.mismatch "usize"

def toStrings : Value → Except DecodeError (List String)
  | .array items => items.mapM (toStringOf "a string")
  | v => v.mismatch "a sequence"

end Toml.Value

/-- A setting of a section: its name and how it is set. -/
structure Setting (σ : Type) where
  name : String
  set : σ → Toml.Value → Except DecodeError σ

namespace Setting

/-- Sets the entries of a section one after another. -/
def setEntries {σ : Type} (settings : List (Setting σ)) (current : σ) :
    List (String × Toml.Value) → Except DecodeError σ
  | [] => .ok current
  | (name, v) :: rest =>
    match settings.find? fun s => s.name == name with
    | none => .error (.unknownField name (settings.map Setting.name))
    | some s => do setEntries settings (← s.set current v) rest

/-- Sets the settings of a section in their order, as far as there are values. -/
def setItems {σ : Type} (current : σ) :
    List (Setting σ) → List Toml.Value → Except DecodeError σ
  | s :: settings, v :: rest => do setItems (← s.set current v) settings rest
  | _, _ => .ok current

/-- Decodes a section. A date counts as a table with one reserved key. -/
def decode {σ : Type} (name : String) (settings : List (Setting σ)) (defaults : σ) :
    Toml.Value → Except DecodeError σ
  | .table entries => setEntries settings defaults entries
  | .array items => setItems defaults settings items
  | .dateTime text => setEntries settings defaults [("$__toml_private_datetime", .string text)]
  | v => v.mismatch ("struct " ++ name)

end Setting

def LoggingConfig.settings : List (Setting LoggingConfig) :=
  [⟨"level", fun c v => do return { c with level := ← v.toStringOf "a string" }⟩,
    ⟨"json", fun c v => do return { c with json := ← v.toBool }⟩,
    ⟨"stderr", fun c v => do return { c with stderr := ← v.toBool }⟩,
    ⟨"file", fun c v => do return { c with file := some (← v.toStringOf "path string") }⟩]

def CheckConfig.settings : List (Setting CheckConfig) :=
  [⟨"extensions", fun c v => do return { c with extensions := ← v.toStrings }⟩,
    ⟨"exclude", fun c v => do return { c with exclude := ← v.toStrings }⟩]

/-- The settings of the preview section, which holds only a number. -/
def Config.previewSettings : List (Setting Nat) := [⟨"context_radius", fun _ v => v.toNat⟩]

def Config.settings : List (Setting Config) :=
  [⟨"logging", fun c v => do
      return { c with logging := ← Setting.decode "LoggingConfig" LoggingConfig.settings {} v }⟩,
    ⟨"check", fun c v => do
      return { c with check := ← Setting.decode "CheckConfig" CheckConfig.settings {} v }⟩,
    ⟨"preview", fun c v => do
      return { c with contextRadius := ← Setting.decode "PreviewConfig" previewSettings 3 v }⟩]

/-- Why a configuration cannot be used. -/
inductive ConfigError where
  /-- The file at a path cannot be read. -/
  | io (path : String) (error : ReadError)
  | toml (error : Toml.Error)
  | decode (error : DecodeError)
  | invalidGlob (error : BadPattern)
deriving DecidableEq, Repr

def ConfigError.message : ConfigError → String
  | .io path error => "failed to read config file " ++ path ++ ": " ++ error.message
  | .toml error => "failed to parse toml config: " ++ error.message
  | .decode error => "failed to parse toml config: " ++ error.message
  | .invalidGlob error => error.message

namespace Config

/-- Reads a configuration and checks its patterns. -/
def parse (t : Text) : Except ConfigError Config := do
  let entries ← (Toml.parse t).mapError .toml
  let config ← (Setting.setEntries Config.settings {} entries).mapError .decode
  let _ ← config.check.filter.mapError .invalidGlob
  return config

/-- Reads the configuration that a path leads to. -/
def read (path : String) (entry : Except ReadError Entry) : Except ConfigError Config :=
  match entry >>= Entry.text with
  | .ok t => parse t
  | .error e => .error (.io path e)

end Config

end ClassRefactor
