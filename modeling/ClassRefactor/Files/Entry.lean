import ClassRefactor.Text.Join

/-!
# Files and directories

A finite directory tree without links. The entries of a directory have distinct names; their order
carries no meaning, and whoever shows them sorts them first.
-/

namespace ClassRefactor

/-- What a file holds: text, or bytes that are not text. -/
inductive Content where
  | text (t : Text)
  | binary (bytes : ByteArray)

namespace Content

/-- Bytes are text if they are well-formed UTF-8. -/
def ofBytes (bytes : ByteArray) : Content :=
  match String.fromUTF8? bytes with
  | some s => .text s.toList
  | none => .binary bytes

/-- Adds text at the end. -/
def append (c : Content) (t : Text) : Content :=
  match c with
  | .text old => .text (old ++ t)
  | .binary bytes => .binary (bytes ++ (String.ofList t).toUTF8)

end Content

/-- A named file or directory. -/
inductive Entry where
  | file (name : String) (content : Content)
  | directory (name : String) (entries : List Entry)

/-- Why nothing can be read at a path. -/
inductive ReadError where
  | missing
  /-- The path leads through a file. -/
  | notADirectory
  | isADirectory
  | nameTooLong
  /-- The path holds the character that ends paths. -/
  | nulInPath
  /-- The bytes there are not text. -/
  | notText
deriving DecidableEq, Repr

def ReadError.message : ReadError → String
  | .missing => "No such file or directory (os error 2)"
  | .notADirectory => "Not a directory (os error 20)"
  | .isADirectory => "Is a directory (os error 21)"
  | .nameTooLong => "File name too long (os error 36)"
  | .nulInPath => "file name contained an unexpected NUL byte"
  | .notText => "stream did not contain valid UTF-8"

namespace Entry

def name : Entry → String
  | .file name _ => name
  | .directory name _ => name

def entries : Entry → List Entry
  | .file _ _ => []
  | .directory _ entries => entries

def isFile : Entry → Bool
  | .file _ _ => true
  | .directory _ _ => false

/-- The text of a file. -/
def text : Entry → Except ReadError Text
  | .file _ (.text t) => .ok t
  | .file _ (.binary _) => .error .notText
  | .directory _ _ => .error .isADirectory

/-- The entry of a directory with a name. -/
def child? (e : Entry) (name : String) : Option Entry := e.entries.find? fun c => c.name == name

/-- A directory with nothing in it. -/
def emptyRoot : Entry := .directory "" []

/-- Puts an entry where one of its name is, or at the end. -/
def putInto (new : Entry) : List Entry → List Entry
  | [] => [new]
  | e :: rest => if e.name == new.name then new :: rest else e :: putInto new rest

/-- Puts a file at a path of names below a directory, and makes the directories on the way. -/
def put (e : Entry) (content : Content) : List String → Entry
  | [] => .file e.name content
  | name :: path =>
    let below := (e.child? name).getD (.directory name [])
    .directory e.name (putInto (below.put content path) e.entries)

end Entry

mutual

/-- All files of an entry with their paths from it on, which begin with `above`. -/
def Entry.filesFrom (above : List String) : Entry → List (List String × Content)
  | .file name content => [(above ++ [name], content)]
  | .directory name entries => Entry.filesOfAll (above ++ [name]) entries

def Entry.filesOfAll (above : List String) : List Entry → List (List String × Content)
  | [] => []
  | e :: rest => e.filesFrom above ++ Entry.filesOfAll above rest

end

namespace Entry

/-- All files below a directory with their paths from it on. -/
def files (e : Entry) : List (List String × Content) := filesOfAll [] e.entries

/-- Puts an entry before the first whose name comes later. -/
def insertByName (new : Entry) : List Entry → List Entry
  | [] => [new]
  | e :: rest => if new.name ≤ e.name then new :: e :: rest else e :: insertByName new rest

end Entry

mutual

/-- A tree with the entries of each directory in ascending order of their names. -/
def Entry.sorted : Entry → Entry
  | .file name content => .file name content
  | .directory name entries => .directory name (Entry.sortedAll entries)

def Entry.sortedAll : List Entry → List Entry
  | [] => []
  | e :: rest => e.sorted.insertByName (Entry.sortedAll rest)

end

end ClassRefactor
