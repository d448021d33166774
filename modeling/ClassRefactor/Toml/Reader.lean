import ClassRefactor.Toml.Scalar

/-!
# Keys and values of TOML

Reading keys, arrays and inline tables. Arrays and inline tables are nested less than
eighty deep.
-/

namespace ClassRefactor.Toml

def isBareKeyChar (c : Char) : Bool := c.isAlphanum || c == '_' || c == '-'

def skipSpaces (t : Text) : Text := t.dropWhile isSpace

/-- Reads one segment of a key. -/
def simpleKey (t : Text) : Except Error (String × Text) :=
  match t with
  | '"' :: rest => lineString '"' [] 0 rest
  | '\'' :: rest => lineString '\'' [] 0 rest
  | t =>
    let key := t.takeWhile isBareKeyChar
    if key.isEmpty then .error .invalidKey else .ok (.ofList key, t.dropWhile isBareKeyChar)

/-- The nesting that keys, arrays and inline tables stay below. -/
def nestingLimit : Nat := 80

/-- Reads a key of at most `limit` segments, with blanks around each. -/
def keyWithin : (limit : Nat) → Text → Except Error (List String × Text)
  | 0, _ => .error .tooDeep
  | limit + 1, t => do
    let (segment, t) ← simpleKey (skipSpaces t)
    match skipSpaces t with
    | '.' :: t =>
      let (segments, t) ← keyWithin limit t
      return (segment :: segments, t)
    | t => return ([segment], t)

def key (t : Text) : Except Error (List String × Text) := keyWithin (nestingLimit - 1) t

/-- Reads a comment, if there is one, up to the end of its line. -/
def comment (t : Text) : Except Error Text :=
  match t with
  | '#' :: rest =>
    let rest := rest.dropWhile isText
    if rest.isEmpty || lineEnd rest != 0 then .ok rest else .error .invalidComment
  | t => .ok t

/-- Passes over blanks, line ends and comments; `fuel` bounds their number. -/
def trivia : (fuel : Nat) → Text → Except Error Text
  | 0, t => .ok t
  | fuel + 1, t =>
    match t with
    | [] => .ok []
    | c :: rest =>
      if isSpace c then trivia fuel rest
      else if c == '#' then do trivia fuel (← comment t)
      else if lineEnd t != 0 then trivia fuel (t.drop (lineEnd t))
      else .ok t

/-- A table that is being built. An implicit one was only passed through on the way to another, and
a dotted one came from a dotted key. -/
structure Flags where
  implicit : Bool
  dotted : Bool
deriving DecidableEq, Repr

/-- An entry of a table that is being built. -/
inductive Node where
  | value (v : Value)
  | table (flags : Flags) (entries : List (String × Node))
  /-- The elements of an array of tables. -/
  | tables (elements : List (List (String × Node)))
deriving Repr, Inhabited

abbrev Entries := List (String × Node)

mutual

/-- The value of an entry. -/
def Node.toValue : Node → Value
  | .value v => v
  | .table _ entries => .table (entriesValues entries)
  | .tables elements => .array (elementsValues elements)

def entriesValues : Entries → List (String × Value)
  | [] => []
  | (k, n) :: rest => (k, n.toValue) :: entriesValues rest

def elementsValues : List Entries → List Value
  | [] => []
  | entries :: rest => .table (entriesValues entries) :: elementsValues rest

end

namespace Entries

/-- Puts a node in place of the one of its key, or at the end. -/
def put (entries : Entries) (key : String) (n : Node) : Entries :=
  if entries.any (·.1 == key) then entries.map fun (k, v) => if k == key then (k, n) else (k, v)
  else entries ++ [(key, n)]

def get? (entries : Entries) (key : String) : Option Node := List.lookup key entries

def erase (entries : Entries) (key : String) : Entries := entries.filter fun (k, _) => k != key

/-- Changes the table that a path leads to, making the tables on the way that are not there. With
`dotted`, the path is one of a dotted key and must not lead through a table that has a header.
`passed` is the part of the path that leads here. -/
def descend {α : Type} (dotted : Bool) (change : Flags → Entries → Except Error (Entries × α))
    (passed : List String) (flags : Flags) (entries : Entries) :
    (path : List String) → Except Error (Entries × α)
  | [] => change flags entries
  | key :: path => do
    let passed := passed ++ [key]
    match entries.get? key with
    | none =>
      let flags : Flags := ⟨true, dotted⟩
      let (inner, a) ← descend dotted change passed flags [] path
      return (entries.put key (.table flags inner), a)
    | some (.value v) => throw (.extendsValue passed v.kind)
    | some (.tables elements) =>
      let (inner, a) ← descend dotted change passed ⟨false, false⟩ (elements.getLast?.getD []) path
      return (entries.put key (.tables (elements.dropLast ++ [inner])), a)
    | some (.table flags inner) =>
      if dotted && !flags.implicit then throw (.duplicateKey key none)
      let (inner, a) ← descend dotted change passed flags inner path
      return (entries.put key (.table flags inner), a)

/-- Adds a value under a dotted key; `table` names the table for messages. -/
def addValue (table : Option (List String)) (entries : Entries) (path : List String) (v : Value) :
    Except Error Entries := do
  let key := path.getLast?.getD ""
  let change := fun (flags : Flags) (inner : Entries) =>
    if flags.dotted == (path.length == 1) then throw (Error.duplicateKey key none)
    else if (inner.get? key).isSome then throw (Error.duplicateKey key table)
    else pure (inner.put key (.value v), ())
  return (← descend true change [] ⟨false, false⟩ entries path.dropLast).1

end Entries

mutual

/-- Reads a value that arrays and inline tables enclose `depth` times; `fuel` bounds the steps. -/
def valueWithin (depth : Nat) : (fuel : Nat) → Text → Except Error (Value × Text)
  | 0, _ => .error .tooDeep
  | fuel + 1, t =>
    match t with
    | '"' :: _ => do
      let (s, t) ← string '"' t
      return (.string s, t)
    | '\'' :: _ => do
      let (s, t) ← string '\'' t
      return (.string s, t)
    | '[' :: t =>
      if depth + 1 < nestingLimit then do
        let (items, t) ← itemsWithin (depth + 1) fuel t
        return (.array items, t)
      else .error .tooDeep
    | '{' :: t =>
      if depth + 1 < nestingLimit then
        match skipSpaces t with
        | '}' :: t => .ok (.table [], t)
        | t => do
          let (entries, t) ← pairsWithin (depth + 1) fuel [] t
          return (.table (entriesValues entries), t)
      else .error .tooDeep
    | t => do
      let (word, rest) := splitWord t
      return (← wordValue word, rest)

/-- Reads the items of an array up to its closing bracket. -/
def itemsWithin (depth : Nat) : (fuel : Nat) → Text → Except Error (List Value × Text)
  | 0, _ => .error .tooDeep
  | fuel + 1, t => do
    match ← trivia t.length t with
    | ']' :: t => return ([], t)
    | t =>
      let (v, t) ← valueWithin depth fuel t
      match ← trivia t.length t with
      | ',' :: t =>
        let (rest, t) ← itemsWithin depth fuel t
        return (v :: rest, t)
      | ']' :: t => return ([v], t)
      | _ => throw .invalidArray

/-- Reads the pairs of an inline table up to its closing brace. -/
def pairsWithin (depth : Nat) :
    (fuel : Nat) → Entries → Text → Except Error (Entries × Text)
  | 0, _, _ => .error .tooDeep
  | fuel + 1, entries, t => do
    let (path, t) ← key t
    match t with
    | '=' :: t =>
      let (v, t) ← valueWithin depth fuel (skipSpaces t)
      let entries ← entries.addValue none path v
      match skipSpaces t with
      | ',' :: t => pairsWithin depth fuel entries t
      | '}' :: t => return (entries, t)
      | _ => throw .invalidInlineTable
    | _ => throw .missingEquals

end

/-- Reads a value. A value takes at most three steps for each of its characters. -/
def value (t : Text) : Except Error (Value × Text) := valueWithin 0 (3 * t.length + 3) t

end ClassRefactor.Toml
