import ClassRefactor.Text.Quoted

/-!
# JSON

The values that the tools report, with the members of an object in the order in which they are
written, either on one line or with one member a line.
-/

namespace ClassRefactor

inductive JsonValue where
  | boolean (b : Bool)
  | number (n : Nat)
  | text (s : String)
  | list (items : List JsonValue)
  | object (members : List (String × JsonValue))
deriving Repr, Inhabited

namespace JsonValue

/-- A list of texts. -/
def texts (l : List String) : JsonValue := .list (l.map .text)

/-- Hexadecimal digits of a number, at least four. -/
def fourDigits (n : Nat) : String :=
  let digits := hexDigits n
  .ofList (List.replicate (4 - digits.length) '0') ++ digits

/-- A character within a string. Only quotes, backslashes and control characters are escaped. -/
def escape (c : Char) : String :=
  if c == '"' then "\\\""
  else if c == '\\' then "\\\\"
  else if c == '\n' then "\\n"
  else if c == '\r' then "\\r"
  else if c == '\t' then "\\t"
  else if c.toNat == 8 then "\\b"
  else if c.toNat == 12 then "\\f"
  else if c.toNat < 32 then "\\u" ++ fourDigits c.toNat
  else .ofList [c]

def string (s : String) : String := "\"" ++ concat (s.toList.map escape) ++ "\""

end JsonValue

mutual

/-- A value on one line. -/
def JsonValue.compact : JsonValue → String
  | .boolean b => if b then "true" else "false"
  | .number n => toString n
  | .text s => JsonValue.string s
  | .list items => "[" ++ joinWith "," (JsonValue.compactItems items) ++ "]"
  | .object members => "\x7b" ++ joinWith "," (JsonValue.compactMembers members) ++ "\x7d"

def JsonValue.compactItems : List JsonValue → List String
  | [] => []
  | v :: rest => v.compact :: JsonValue.compactItems rest

def JsonValue.compactMembers : List (String × JsonValue) → List String
  | [] => []
  | (key, v) :: rest =>
    (JsonValue.string key ++ ":" ++ v.compact) :: JsonValue.compactMembers rest

end

namespace JsonValue

/-- Parts between brackets, each on its own line one step deeper than the brackets. -/
def bracketed (opening closing indent : String) (parts : List String) : String :=
  if parts.isEmpty then opening ++ closing
  else
    opening ++ "\n" ++ joinWith ",\n" (parts.map fun p => indent ++ "  " ++ p) ++ "\n" ++ indent ++
      closing

end JsonValue

mutual

/-- A value over several lines, where `indent` is the indentation of the line it begins on. -/
def JsonValue.pretty (indent : String) : JsonValue → String
  | .boolean b => if b then "true" else "false"
  | .number n => toString n
  | .text s => JsonValue.string s
  | .list items => JsonValue.bracketed "[" "]" indent (JsonValue.prettyItems (indent ++ "  ") items)
  | .object members =>
    JsonValue.bracketed "\x7b" "\x7d" indent (JsonValue.prettyMembers (indent ++ "  ") members)

def JsonValue.prettyItems (indent : String) : List JsonValue → List String
  | [] => []
  | v :: rest => v.pretty indent :: JsonValue.prettyItems indent rest

def JsonValue.prettyMembers (indent : String) : List (String × JsonValue) → List String
  | [] => []
  | (key, v) :: rest =>
    (JsonValue.string key ++ ": " ++ v.pretty indent) :: JsonValue.prettyMembers indent rest

end

end ClassRefactor
