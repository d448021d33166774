import ClassRefactor.Toml.Reader

/-!
# TOML documents

A document is read line by line. A header opens a table, and the pairs after it go there. A table
joins the document when the next header or the end comes, so a table that was only passed through
before its own header stands where that header does.
-/

namespace ClassRefactor.Toml

/-- The state of reading a document: what is finished, and the table that is open. -/
structure Document where
  root : Entries := []
  entries : Entries := []
  path : List String := []
  /-- The open table is an element of an array of tables. -/
  isElement : Bool := false

namespace Document

def rootFlags : Flags := ⟨false, false⟩

/-- Puts the open table into the document. -/
def close (d : Document) : Except Error Entries :=
  match d.path.getLast? with
  | none => .ok d.entries
  | some key => do
    let change := fun (_ : Flags) (parent : Entries) =>
      if d.isElement then
        match parent.get? key with
        | some (.tables elements) => pure (parent.put key (.tables (elements ++ [d.entries])), ())
        | none => pure (parent.put key (.tables [d.entries]), ())
        | some _ => throw (Error.duplicateKey key (some d.path.dropLast))
      else pure (parent.put key (.table ⟨false, false⟩ d.entries), ())
    return (← Entries.descend false change [] rootFlags d.root d.path.dropLast).1

/-- Opens the table of a header. One that was only passed through may still be opened. -/
def openTable (d : Document) (path : List String) : Except Error Document := do
  let root ← d.close
  let key := path.getLast?.getD ""
  let change := fun (_ : Flags) (parent : Entries) =>
    match parent.get? key with
    | none => pure (parent, [])
    | some (.table flags inner) =>
      if flags.implicit && !flags.dotted then pure (parent.erase key, inner)
      else throw (Error.duplicateKey key (some path.dropLast))
    | some _ => throw (Error.duplicateKey key (some path.dropLast))
  let (root, entries) ← Entries.descend false change [] rootFlags root path.dropLast
  return { root, entries, path }

/-- Opens a new element of an array of tables. -/
def openElement (d : Document) (path : List String) : Except Error Document := do
  let root ← d.close
  let key := path.getLast?.getD ""
  let change := fun (_ : Flags) (parent : Entries) =>
    match parent.get? key with
    | none => pure (parent.put key (.tables []), ())
    | some (.tables _) => pure (parent, ())
    | some _ => throw (Error.duplicateKey key (some path.dropLast))
  let (root, _) ← Entries.descend false change [] rootFlags root path.dropLast
  return { root, path, isElement := true }

/-- Reads a header. -/
def header (d : Document) (t : Text) : Except Error (Document × Text) :=
  match t with
  | '[' :: '[' :: t => do
    let (path, t) ← key t
    match t with
    | ']' :: ']' :: t => return (← d.openElement path, t)
    | _ => throw .invalidHeader
  | t => do
    let (path, t) ← key (t.drop 1)
    match t with
    | ']' :: t => return (← d.openTable path, t)
    | _ => throw .invalidHeader

/-- Reads a pair. -/
def pair (d : Document) (t : Text) : Except Error (Document × Text) := do
  let (path, t) ← key t
  match t with
  | '=' :: t =>
    let (v, t) ← value (skipSpaces t)
    return ({ d with entries := ← d.entries.addValue (some d.path) path v }, t)
  | _ => throw .missingEquals

/-- Reads what may follow a pair or a header on its line. -/
def lineRest (t : Text) : Except Error Text := do
  let t ← comment (skipSpaces t)
  if t.isEmpty || lineEnd t != 0 then return t.drop (lineEnd t) else throw .trailingText

/-- Reads the lines of a document; `fuel` bounds their number. -/
def lines (d : Document) : (fuel : Nat) → Text → Except Error Document
  | 0, _ => .ok d
  | fuel + 1, t =>
    match skipSpaces t with
    | [] => .ok d
    | c :: rest => do
      let t := c :: rest
      if c == '#' || lineEnd t != 0 then lines d fuel (← lineRest t)
      else
        let (d, t) ← if c == '[' then d.header t else d.pair t
        lines d fuel (← lineRest t)

end Document

/-- The entries of a document. A byte order mark at its front is passed over. -/
def parse (t : Text) : Except Error (List (String × Value)) := do
  let t := match t with
    | '\uFEFF' :: rest => rest
    | t => t
  return entriesValues (← (← Document.lines {} (t.length + 1) t).close)

end ClassRefactor.Toml
