import ClassRefactor.Text.Quoted

/-!
# TOML values

The values that a TOML document holds, and what can be wrong with a document.
-/

namespace ClassRefactor.Toml

inductive Value where
  | string (text : String)
  | integer (n : Int)
  /-- A float, as it is written. -/
  | float (text : String)
  | boolean (b : Bool)
  /-- A date, a time, or both, as it is written. -/
  | dateTime (text : String)
  | array (items : List Value)
  /-- A table with its entries in the order of the document. -/
  | table (entries : List (String × Value))
deriving Repr, Inhabited

/-- The kind of a value, as messages name it. -/
def Value.kind : Value → String
  | .string _ => "string"
  | .integer _ => "integer"
  | .float _ => "float"
  | .boolean _ => "boolean"
  | .dateTime _ => "datetime"
  | .array _ => "array"
  | .table _ => "inline table"

/-- What is wrong with a document. -/
inductive Error where
  | invalidKey
  | missingEquals
  | invalidValue
  | invalidString
  | invalidArray
  | invalidInlineTable
  | invalidHeader
  /-- Something stands after a value or a header on its line. -/
  | trailingText
  | invalidComment
  /-- A key is defined twice; the table is given where it is known. -/
  | duplicateKey (key : String) (table : Option (List String))
  /-- A dotted key leads through a value that is no table. -/
  | extendsValue (path : List String) (kind : String)
  | outOfRange
  | tooDeep
deriving DecidableEq, Repr

def Error.message : Error → String
  | .invalidKey => "invalid key"
  | .missingEquals => "expected `.`, `=`"
  | .invalidValue => "invalid string\nexpected `\"`, `'`"
  | .invalidString => "invalid basic string"
  | .invalidArray => "invalid array\nexpected `]`"
  | .invalidInlineTable => "invalid inline table\nexpected `\x7d`"
  | .invalidHeader => "invalid table header\nexpected `.`, `]`"
  | .trailingText => "expected newline, `#`"
  | .invalidComment => "invalid comment"
  | .duplicateKey key none => "duplicate key `" ++ key ++ "`"
  | .duplicateKey key (some []) => "duplicate key `" ++ key ++ "` in document root"
  | .duplicateKey key (some path) =>
    "duplicate key `" ++ key ++ "` in table `" ++ joinWith "." path ++ "`"
  | .extendsValue path kind =>
    "dotted key `" ++ joinWith "." path ++ "` attempted to extend non-table type (" ++ kind ++ ")"
  | .outOfRange => "value is out of range"
  | .tooDeep => "recursion limit exceeded"

end ClassRefactor.Toml
