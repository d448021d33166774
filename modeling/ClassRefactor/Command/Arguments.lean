import ClassRefactor.Text.Join

/-!
# Arguments

Arguments are options, which begin with two dashes, and operands. An option may take a value, joined
to it by an equals sign or as the next argument. After two dashes alone, everything is an operand.
-/

namespace ClassRefactor

/-- Why arguments are refused. -/
inductive UsageError where
  | unknownOption (word : String)
  | unexpectedOperand (word : String)
  | missingValue (option : String)
  /-- A value is given to an option that takes none. -/
  | needlessValue (option : String)
  | repeated (option : String)
  | badValue (option value : String)
  | conflict (option other : String)
  | missing (what : String)
deriving DecidableEq, Repr

def UsageError.message : UsageError → String
  | .unknownOption word => "error: unexpected argument '" ++ word ++ "' found"
  | .unexpectedOperand word => "error: unexpected argument '" ++ word ++ "' found"
  | .missingValue option =>
    "error: a value is required for '--" ++ option ++ "' but none was supplied"
  | .needlessValue option => "error: unexpected value for '--" ++ option ++ "' found"
  | .repeated option => "error: the argument '--" ++ option ++ "' cannot be used multiple times"
  | .badValue option value => "error: invalid value '" ++ value ++ "' for '" ++ option ++ "'"
  | .conflict option other =>
    "error: the argument '--" ++ option ++ "' cannot be used with '--" ++ other ++ "'"
  | .missing what => "error: the following required arguments were not provided: " ++ what

/-- How a single argument reads. -/
inductive Word where
  /-- Two dashes alone. -/
  | divider
  | option (name : String) (value : Option String)
  /-- One dash and something after it. -/
  | short (flags : Text)
  | operand (text : String)
deriving DecidableEq, Repr

namespace Word

/-- A name, and what follows the first equals sign after it. -/
def ofOption (t : Text) : Word :=
  let name := t.takeWhile (· != '=')
  match t.drop name.length with
  | [] => .option (.ofList name) none
  | _ :: value => .option (.ofList name) (some (.ofList value))

def ofString (s : String) : Word :=
  match s.toList with
  | ['-', '-'] => .divider
  | '-' :: '-' :: t => ofOption t
  | ['-'] => .operand s
  | '-' :: t => .short t
  | _ => .operand s

end Word

/-- Which values an option accepts. -/
abbrev ValueTest := String → Bool

/-- The options that a command knows. -/
structure OptionSet where
  /-- Options that take a value. -/
  valued : List (String × ValueTest)
  flags : List String

/-- The arguments of a command, as they are read. -/
structure Arguments where
  values : List (String × String) := []
  flags : List String := []
  operand : Option String := none
  /-- Help was asked for; nothing after that was read. -/
  wantsHelp : Bool := false
deriving DecidableEq, Repr

namespace Arguments

def value? (a : Arguments) (option : String) : Option String := a.values.lookup option

def has (a : Arguments) (option : String) : Bool :=
  a.flags.contains option || (a.value? option).isSome

def addValue (a : Arguments) (option : String) (accepts : ValueTest) (value : String) :
    Except UsageError Arguments :=
  if a.has option then .error (.repeated option)
  else if !accepts value then .error (.badValue ("--" ++ option) value)
  else .ok { a with values := a.values ++ [(option, value)] }

def addFlag (a : Arguments) (option : String) : Except UsageError Arguments :=
  if a.has option then .error (.repeated option) else .ok { a with flags := a.flags ++ [option] }

/-- Every command takes at most one operand, which is a path. -/
def addOperand (a : Arguments) (operand : String) : Except UsageError Arguments :=
  if a.operand.isSome then .error (.unexpectedOperand operand)
  else if operand.isEmpty then .error (.badValue "<FILE>" operand)
  else .ok { a with operand }

/-- Reads an option: the arguments with it, or the option whose value is still to come. -/
def addOption (known : OptionSet) (a : Arguments) (name : String) (value : Option String) :
    Except UsageError (Arguments × Option (String × ValueTest)) :=
  match known.valued.lookup name, value with
  | some accepts, some v => do return (← a.addValue name accepts v, none)
  | some accepts, none => .ok (a, some (name, accepts))
  | none, value =>
    if known.flags.contains name then
      match value with
      | some _ => .error (.needlessValue name)
      | none => do return (← a.addFlag name, none)
    else .error (.unknownOption ("--" ++ name))

/-- Whether a word asks for help. -/
def isHelp : Word → Bool
  | .option "help" none => true
  | .short ('h' :: _) => true
  | _ => false

/-- Reads arguments, where `pending` is an option whose value is still to come. A request for help
ends the reading. -/
def read (known : OptionSet) (a : Arguments) (pending : Option (String × ValueTest)) :
    List String → Except UsageError Arguments
  | [] =>
    match pending with
    | some (option, _) => .error (.missingValue option)
    | none => .ok a
  | word :: rest =>
    match pending, Word.ofString word with
    | some (option, accepts), .operand v => do
      read known (← a.addValue option accepts v) none rest
    | some (option, _), _ => .error (.missingValue option)
    | none, .operand v => do read known (← a.addOperand v) none rest
    | none, .divider => rest.foldlM addOperand a
    | none, .short _ =>
      if isHelp (Word.ofString word) then .ok { a with wantsHelp := true }
      else .error (.unknownOption word)
    | none, .option name value =>
      if isHelp (Word.ofString word) then .ok { a with wantsHelp := true }
      else do
        let (a, pending) ← a.addOption known name value
        read known a pending rest

/-- Refuses options that exclude each other. -/
def exclude (a : Arguments) (pairs : List (String × String)) : Except UsageError Unit :=
  match pairs.find? fun (x, y) => a.has x && a.has y with
  | some (x, y) => .error (.conflict x y)
  | none => .ok ()

/-- Whether an option could not be given, because one that excludes it is there. -/
def isRuledOut (a : Arguments) (pairs : List (String × String)) (option : String) : Bool :=
  pairs.any fun (x, y) => (x == option && a.has y) || (y == option && a.has x)

/-- Refuses an option without another that it needs, unless that one is ruled out. -/
def require (a : Arguments) (pairs : List (String × String)) (option needed : String) :
    Except UsageError Unit :=
  if a.has option && !a.has needed && !a.isRuledOut pairs needed then
    .error (.missing ("--" ++ needed))
  else .ok ()

/-- The value of an option, read by a function. -/
def parsed {α : Type} (a : Arguments) (read : String → Option α) (option : String) :
    Except UsageError (Option α) :=
  match a.value? option with
  | none => .ok none
  | some v =>
    match read v with
    | some x => .ok (some x)
    | none => .error (.badValue ("--" ++ option) v)

end Arguments

end ClassRefactor
