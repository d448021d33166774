import ClassRefactor.Command.Arguments
import ClassRefactor.Method.Mode
import ClassRefactor.Source.Cursor
import ClassRefactor.Text.Numeral

/-!
# Invocations

The commands of the program and how they are read from its arguments.
-/

namespace ClassRefactor

/-- What becomes of a changed file. -/
inductive OutputMode where
  /-- The new text is printed. -/
  | print
  /-- The difference is printed. -/
  | diff
  /-- A preview is printed as JSON. -/
  | json
  /-- The file is overwritten. -/
  | inPlace
deriving DecidableEq, Repr

inductive Command where
  /-- Give classes of a file the constructors that they need: the class of a name, the class at a
  cursor, or every class. -/
  | ctor (file : String) (className : Option String) (cursor : Cursor) (output : OutputMode)
  /-- Convert a method, by its name or at a cursor. -/
  | convert (file : String) (target : MethodMode) (method className : Option String)
      (cursor : Cursor) (output : OutputMode)
  /-- List the refactorings on offer at a cursor. -/
  | actions (file : String) (cursor : Cursor) (json : Bool)
  /-- Report on a file or directory. -/
  | check (path : String) (json : Bool)
deriving DecidableEq, Repr

/-- The names of the commands. -/
inductive Topic where
  | ctor
  | convert
  | actions
  | check
deriving DecidableEq, Repr

def Topic.ofName? : String → Option Topic
  | "ctor" => some .ctor
  | "convert" => some .convert
  | "actions" => some .actions
  | "check" => some .check
  | _ => none

/-- What the arguments ask for. -/
inductive Request where
  | version
  /-- Help on a command, or on the program. -/
  | help (topic : Option Topic)
  /-- Nothing at all is asked for. -/
  | nothing
  | run (config : Option String) (command : Command)
deriving DecidableEq, Repr

namespace Command

/-- A path, which must not be empty. -/
def path? (s : String) : Option String := if s.isEmpty then none else some s

/-- A number of at most 64 bits. -/
def word64? (s : String) : Option Nat := (numeral? s.toList).filter (· < UInt64.size)

/-- The options of a position take numbers. -/
def positionOptions : List (String × ValueTest) :=
  ["offset", "line", "column"].map fun option => (option, fun v => (word64? v).isSome)

def outputFlags : List String := ["in-place", "diff", "json"]

/-- The options that exclude each other in every command. -/
def exclusions : List (String × String) :=
  [("offset", "line"), ("offset", "column"), ("in-place", "diff"), ("in-place", "json"),
    ("diff", "json")]

/-- A line and a column belong together. -/
def cursor (a : Arguments) (pairs : List (String × String)) : Except UsageError Cursor := do
  a.require pairs "line" "column"
  a.require pairs "column" "line"
  return { offset := ← a.parsed word64? "offset", line := ← a.parsed word64? "line"
           column := ← a.parsed word64? "column" }

def output (a : Arguments) : OutputMode :=
  if a.has "in-place" then .inPlace
  else if a.has "diff" then .diff
  else if a.has "json" then .json
  else .print

def file (a : Arguments) : Except UsageError String :=
  match a.operand with
  | some s => .ok s
  | none => .error (.missing "<FILE>")

/-- An option that takes any text. -/
def textOption (name : String) : String × ValueTest := (name, fun _ => true)

/-- The option that names a configuration. -/
def configOption : String × ValueTest := ("config", fun v => (path? v).isSome)

/-- The option that names the mode to convert to. -/
def modeOption : String × ValueTest := ("to", fun v => (MethodMode.ofName? v).isSome)

/-- The options of a command. -/
def options : Topic → OptionSet
  | .ctor => ⟨configOption :: textOption "class" :: positionOptions, outputFlags⟩
  | .convert =>
    ⟨configOption :: modeOption :: textOption "method" :: textOption "class" :: positionOptions,
      outputFlags⟩
  | .actions => ⟨configOption :: positionOptions, ["json"]⟩
  | .check => ⟨[configOption], ["json"]⟩

/-- A class takes the place of a position. -/
def ofCtor (a : Arguments) : Except UsageError Command := do
  let pairs := exclusions ++ [("class", "offset"), ("class", "line")]
  a.exclude pairs
  return .ctor (← file a) (a.value? "class") (← cursor a pairs) (output a)

/-- A method takes the place of a position. A class restricts the methods of a name; with a position
there is no name to restrict, and the class has no effect. -/
def ofConvert (a : Arguments) : Except UsageError Command := do
  let pairs := exclusions ++ [("method", "offset"), ("method", "line")]
  a.exclude pairs
  a.require pairs "class" "method"
  match ← a.parsed MethodMode.ofName? "to" with
  | none => throw (.missing "--to")
  | some target =>
    return .convert (← file a) target (a.value? "method") (a.value? "class") (← cursor a pairs)
      (output a)

def ofActions (a : Arguments) : Except UsageError Command := do
  a.exclude exclusions
  return .actions (← file a) (← cursor a exclusions) (a.has "json")

def ofCheck (a : Arguments) : Except UsageError Command :=
  .ok (.check (a.operand.getD ".") (a.has "json"))

/-- The command that arguments make up. -/
def ofArguments (topic : Topic) (a : Arguments) : Except UsageError Command :=
  match topic with
  | .ctor => ofCtor a
  | .convert => ofConvert a
  | .actions => ofActions a
  | .check => ofCheck a

end Command

namespace Request

/-- The configuration that arguments name. -/
def config (a : Arguments) : Except UsageError (Option String) :=
  a.parsed Command.path? "config"

/-- Reads the arguments of a command. An option after the command counts more than one before it,
which is looked at last. -/
def ofCommand (before : Arguments) (topic : Topic) (words : List String) :
    Except UsageError Request := do
  let a ← Arguments.read (Command.options topic) {} none words
  if a.wantsHelp then return .help (some topic)
  let command ← Command.ofArguments topic a
  return .run ((← config a).or (← config before)) command

/-- Reads what follows a request for help: the commands it is about. -/
def ofHelp (topic : Option Topic) : List String → Except UsageError Request
  | [] => .ok (.help topic)
  | word :: rest =>
    match Topic.ofName? word, topic with
    | some t, none => ofHelp (some t) rest
    | _, _ => .error (.unexpectedOperand word)

/-- Reads an option that stands before the command and ends the reading. -/
def ofFlag? : Word → Option Request
  | .short ('V' :: _) => some .version
  | .short ('h' :: _) => some (.help none)
  | .option "version" none => some .version
  | .option "help" none => some (.help none)
  | _ => none

/-- Reads what stands before a command, where `pending` is an option whose value is to come. -/
def readFrom (a : Arguments) (pending : Option (String × ValueTest)) :
    List String → Except UsageError Request
  | [] =>
    match pending with
    | some (option, _) => .error (.missingValue option)
    | none => .error (.missing "<COMMAND>")
  | word :: rest =>
    match pending, Word.ofString word with
    | some (option, accepts), .operand v => do
      readFrom (← a.addValue option accepts v) none rest
    | some (option, _), _ => .error (.missingValue option)
    | none, .operand name =>
      match Topic.ofName? name with
      | some topic => ofCommand a topic rest
      | none => if name == "help" then ofHelp none rest else .error (.unexpectedOperand name)
    | none, .divider =>
      if rest.isEmpty && a.values.isEmpty then .ok .nothing else .error (.missing "<COMMAND>")
    | none, .short flags =>
      match ofFlag? (.short flags) with
      | some request => (config a).map fun _ => request
      | none => .error (.unknownOption word)
    | none, .option name value =>
      match ofFlag? (.option name value) with
      | some request => (config a).map fun _ => request
      | none => do
        let (a, pending) ← a.addOption ⟨[Command.textOption "config"], []⟩ name value
        readFrom a pending rest

/-- Reads the arguments of the program. -/
def ofArguments (words : List String) : Except UsageError Request :=
  if words.isEmpty then .ok .nothing else readFrom {} none words

end Request

end ClassRefactor
