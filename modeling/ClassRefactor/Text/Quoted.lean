import ClassRefactor.Text.Graphic
import ClassRefactor.Text.Join

/-!
# Quoted text

Text as it is shown in messages: between double quotes, with quotes, backslashes and everything that
is not graphic escaped.
-/

namespace ClassRefactor

/-- The lower-case hexadecimal digits of a number. -/
def hexDigits (n : Nat) : String := .ofList (Nat.toDigits 16 n)

/-- A character as it stands between double quotes. -/
def quoteChar (c : Char) : String :=
  if c == '"' then "\\\""
  else if c == '\\' then "\\\\"
  else if c == '\n' then "\\n"
  else if c == '\r' then "\\r"
  else if c == '\t' then "\\t"
  else if c.toNat == 0 then "\\0"
  else if isGraphic c then .ofList [c]
  else "\\u\x7b" ++ hexDigits c.toNat ++ "\x7d"

/-- A text between double quotes. -/
def quoted (s : String) : String := "\"" ++ concat (s.toList.map quoteChar) ++ "\""

/-- A list of texts between brackets. -/
def quotedList (texts : List String) : String := "[" ++ joinWith ", " (texts.map quoted) ++ "]"

end ClassRefactor
