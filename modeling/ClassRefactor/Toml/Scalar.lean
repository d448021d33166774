import ClassRefactor.Number.Double
import ClassRefactor.Toml.Value

/-!
# Strings, numbers and dates of TOML
-/

namespace ClassRefactor.Toml

/-- Tab, and every character that is no ASCII control, may stand in comments and strings. -/
def isText (c : Char) : Bool := c == '\t' || (0x20 ≤ c.toNat && c.toNat != 0x7F)

def isSpace (c : Char) : Bool := c == ' ' || c == '\t'

/-- The number of characters of the line end at the front of a text; zero if there is none. -/
def lineEnd : Text → Nat
  | '\n' :: _ => 1
  | '\r' :: '\n' :: _ => 2
  | _ => 0

/-- The number that digits spell in a base. -/
def number? (base : Nat) (digits : Text) : Option Nat :=
  digits.foldl (fun acc c => do
    let n ← acc
    let d ← hexValue? c
    if d < base then some (n * base + d) else none) (some 0)

/-- The character that an escape stands for, and the number of characters after the backslash. -/
def escape? : Text → Option (Char × Nat)
  | 'b' :: _ => some ('\x08', 1)
  | 't' :: _ => some ('\t', 1)
  | 'n' :: _ => some ('\n', 1)
  | 'f' :: _ => some ('\x0c', 1)
  | 'r' :: _ => some ('\r', 1)
  | '"' :: _ => some ('"', 1)
  | '\\' :: _ => some ('\\', 1)
  | 'u' :: t => hexEscape? 4 t
  | 'U' :: t => hexEscape? 8 t
  | _ => none
where
  /-- An escape of so many hexadecimal digits. -/
  hexEscape? (width : Nat) (t : Text) : Option (Char × Nat) := do
    let digits := t.take width
    if digits.length < width then none
    else some (← scalar? (← number? 16 digits), width + 1)

/-- Reads a string up to its closing quote. `read` holds what has been read, last character first,
and the first `skip` characters are passed over. -/
def lineString (quote : Char) (read : Text) (skip : Nat) : Text → Except Error (String × Text)
  | [] => .error .invalidString
  | c :: t =>
    match skip with
    | skip + 1 => lineString quote read skip t
    | 0 =>
      if c == quote then .ok (.ofList read.reverse, t)
      else if c == '\\' && quote == '"' then
        match escape? t with
        | none => .error .invalidString
        | some (d, n) => lineString quote (d :: read) n t
      else if isText c then lineString quote (c :: read) 0 t
      else .error .invalidString

/-- The number of blanks and line ends at the front of a text. -/
def blanks : Text → Nat
  | [] => 0
  | '\r' :: '\n' :: t => blanks t + 2
  | c :: t => if isSpace c || c == '\n' then blanks t + 1 else 0

/-- The number of characters that a backslash at the end of a line lets drop. -/
def continuation? (t : Text) : Option Nat :=
  let spaces := (t.takeWhile isSpace).length
  if lineEnd (t.drop spaces) == 0 then none else some (blanks t)

/-- Reads a string of several lines up to its three closing quotes, which one or two quotes of its
text may precede. -/
def blockString (quote : Char) (read : Text) (skip : Nat) : Text → Except Error (String × Text)
  | [] => .error .invalidString
  | c :: t =>
    match skip with
    | skip + 1 => blockString quote read skip t
    | 0 =>
      if c == quote then
        let run := ((c :: t).takeWhile (· == quote)).length
        if 3 ≤ run then
          let extra := min (run - 3) 2
          .ok (.ofList (List.replicate extra quote ++ read).reverse, t.drop (extra + 2))
        else blockString quote (c :: read) 0 t
      else if c == '\\' && quote == '"' then
        match continuation? t, escape? t with
        | some n, _ => blockString quote read n t
        | none, some (d, n) => blockString quote (d :: read) n t
        | none, none => .error .invalidString
      else if lineEnd (c :: t) != 0 then
        blockString quote ('\n' :: read) (lineEnd (c :: t) - 1) t
      else if isText c then blockString quote (c :: read) 0 t
      else .error .invalidString

/-- Reads a string whose opening quote is the first character. -/
def string (quote : Char) (t : Text) : Except Error (String × Text) :=
  if [quote, quote, quote].isPrefixOf t then
    let body := t.drop 3
    blockString quote [] 0 (body.drop (lineEnd body))
  else lineString quote [] 0 (t.drop 1)

/-- Digits of a base with single underscores between them, without the underscores. -/
def plainDigits? (base : Nat) : Text → Option Text
  | [] => none
  | [c] => if (hexValue? c).any (· < base) then some [c] else none
  | c :: '_' :: t =>
    if (hexValue? c).any (· < base) then (plainDigits? base t).map (c :: ·) else none
  | c :: t => if (hexValue? c).any (· < base) then (plainDigits? base t).map (c :: ·) else none

/-- Decimal digits without a leading zero. -/
def decimal? (t : Text) : Option Text :=
  if t.head? == some '0' && t != ['0'] then none else plainDigits? 10 t

/-- A text without the sign at its front, and whether that is a minus. -/
def splitSign : Text → Bool × Text
  | '-' :: t => (true, t)
  | '+' :: t => (false, t)
  | t => (false, t)

/-- Signed integers have 64 bits. -/
def inRange (n : Int) : Except Error Value :=
  if Int64.minValue.toInt ≤ n && n ≤ Int64.maxValue.toInt then .ok (.integer n)
  else .error .outOfRange

/-- The integer that a word spells. -/
def integer? (word : Text) : Option Int :=
  match word with
  | '0' :: 'x' :: t => (plainDigits? 16 t).bind fun ds => (number? 16 ds).map Int.ofNat
  | '0' :: 'o' :: t => (plainDigits? 8 t).bind fun ds => (number? 8 ds).map Int.ofNat
  | '0' :: 'b' :: t => (plainDigits? 2 t).bind fun ds => (number? 2 ds).map Int.ofNat
  | word =>
    let (negative, digits) := splitSign word
    (decimal? digits).bind fun ds =>
      (number? 10 ds).map fun n => if negative then -(Int.ofNat n) else Int.ofNat n

/-- Whether a word is an exponent without its mark. -/
def isExponent (t : Text) : Bool := (plainDigits? 10 (splitSign t).2).isSome

/-- Whether a word is a float. -/
def isFloat (word : Text) : Bool :=
  let (_, t) := splitSign word
  if t == "inf".toList || t == "nan".toList then true
  else
    let isMark := fun c => c == 'e' || c == 'E'
    let mantissa := t.takeWhile fun c => !isMark c
    let exponent := t.dropWhile fun c => !isMark c
    let whole := mantissa.takeWhile (· != '.')
    let fraction := mantissa.dropWhile (· != '.')
    (decimal? whole).isSome && (fraction.isEmpty || (plainDigits? 10 (fraction.drop 1)).isSome) &&
      (exponent.isEmpty || isExponent (exponent.drop 1)) && !(fraction.isEmpty && exponent.isEmpty)

/-- Whether a word is digits that spell a number too large for a float. -/
def isTooLarge (word : Text) : Bool :=
  word.any Char.isDigit && Double.read? (word.filter (· != '_')) == some (.infinite false)

/-- The number that exactly `width` digits spell. -/
def fixed? (width : Nat) (t : Text) : Option Nat :=
  if t.length == width && t.all Char.isDigit then number? 10 t else none

/-- The number of days of a month. -/
def daysIn (year month : Nat) : Nat :=
  if month == 2 then
    if year % 4 == 0 && (year % 100 != 0 || year % 400 == 0) then 29 else 28
  else if month == 4 || month == 6 || month == 9 || month == 11 then 30
  else 31

/-- Whether a text is a date. -/
def isDate (t : Text) : Bool :=
  t.length == 10 && (t.drop 4).head? == some '-' && (t.drop 7).head? == some '-' &&
    match fixed? 4 (t.take 4), fixed? 2 ((t.drop 5).take 2), fixed? 2 (t.drop 8) with
    | some year, some month, some day =>
      1 ≤ month && month ≤ 12 && 1 ≤ day && day ≤ daysIn year month
    | _, _, _ => false

/-- Whether a text is hours and minutes. -/
def isHourMinute (t : Text) : Bool :=
  t.length == 5 && (t.drop 2).head? == some ':' &&
    match fixed? 2 (t.take 2), fixed? 2 (t.drop 3) with
    | some hour, some minute => hour < 24 && minute < 60
    | _, _ => false

/-- Whether a text is a time of day. -/
def isTime (t : Text) : Bool :=
  isHourMinute (t.take 5) && (t.drop 5).head? == some ':' &&
    (match fixed? 2 ((t.drop 6).take 2) with
      | some second => second ≤ 60
      | none => false) &&
    (match t.drop 8 with
      | [] => true
      | '.' :: digits => !digits.isEmpty && digits.all Char.isDigit
      | _ => false)

/-- Whether a text is a time of day with or without an offset. -/
def isOffsetTime (t : Text) : Bool :=
  isTime t ||
    match t.reverse with
    | 'Z' :: rest => isTime rest.reverse
    | 'z' :: rest => isTime rest.reverse
    | _ =>
      let time := t.take (t.length - 6)
      match t.drop (t.length - 6) with
      | '+' :: offset => isTime time && isHourMinute offset
      | '-' :: offset => isTime time && isHourMinute offset
      | _ => false

/-- Whether a text is a date, a time, or both. -/
def isDateTime (t : Text) : Bool :=
  isTime t || isDate t ||
    (isDate (t.take 10) &&
      match t.drop 10 with
      | 'T' :: time => isOffsetTime time
      | 't' :: time => isOffsetTime time
      | ' ' :: time => isOffsetTime time
      | _ => false)

/-- The characters of numbers, dates and keywords. -/
def isWordChar (c : Char) : Bool :=
  c.isAlphanum || c == '_' || c == '+' || c == '-' || c == '.' || c == ':'

/-- Splits a number, date or keyword from the front of a text. A date may have a blank before its
time. -/
def splitWord (t : Text) : Text × Text :=
  let word := t.takeWhile isWordChar
  let rest := t.dropWhile isWordChar
  if isDate word then
    match rest with
    | ' ' :: d :: more =>
      if d.isDigit then
        (word ++ ' ' :: (d :: more).takeWhile isWordChar, (d :: more).dropWhile isWordChar)
      else (word, rest)
    | _ => (word, rest)
  else (word, rest)

/-- The value that a word stands for. -/
def wordValue (word : Text) : Except Error Value :=
  if word == "true".toList then .ok (.boolean true)
  else if word == "false".toList then .ok (.boolean false)
  else if isDateTime word then .ok (.dateTime (.ofList word))
  else if isFloat word then
    if isTooLarge word then .error .outOfRange else .ok (.float (.ofList word))
  else match integer? word with
    | some n => inRange n
    | none => .error .invalidValue

end ClassRefactor.Toml
