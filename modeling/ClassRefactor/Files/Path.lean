import ClassRefactor.Files.Entry

/-!
# Paths

A path is read from a directory on, name by name. Empty parts and single dots stay where they are,
and two dots go back up, as long as that does not leave the tree. Names and paths have limits, which
are counted in bytes.
-/

namespace ClassRefactor

namespace Path

/-- The parts of a path between its slashes. -/
def parts (path : String) : List String :=
  (Text.splitAtChar '/' path.toList).map String.ofList

def isAbsolute (path : String) : Bool := path.toList.head? == some '/'

/-- A path below another. -/
def join (base name : String) : String :=
  if base.isEmpty then name
  else if base.toList.getLast? == some '/' then base ++ name
  else base ++ "/" ++ name

/-- Whether a part names an entry, and is no step within the tree. -/
def isName (part : String) : Bool := part != "" && part != "." && part != ".."

/-- A name has at most so many bytes. -/
def nameLimit : Nat := 255

/-- A path has at most so many bytes. -/
def pathLimit : Nat := 4095

end Path

namespace Entry

/-- Follows the parts of a path. The trail holds the entries from the current one up to the
root. -/
def follow (here : Entry) (trail : List Entry) :
    List String → Except ReadError (Entry × List Entry)
  | [] => .ok (here, trail)
  | part :: rest =>
    if here.isFile then .error .notADirectory
    else if part == "" || part == "." then follow here trail rest
    else if part == ".." then
      match trail with
      | [] => .error .missing
      | above :: trail => follow above trail rest
    else if Path.nameLimit < part.utf8ByteSize then .error .nameTooLong
    else match here.child? part with
      | none => .error .missing
      | some e => follow e (here :: trail) rest

/-- Where a path leads, with the names on the way there. -/
def locate (root : Entry) (path : String) : Except ReadError (Entry × List String) :=
  if path.toList.any fun c => c.toNat == 0 then .error .nulInPath
  else if Path.pathLimit < path.utf8ByteSize then .error .nameTooLong
  else if path.isEmpty || Path.isAbsolute path then .error .missing
  else do
    let (e, trail) ← root.follow [] (Path.parts path)
    return (e, ((e :: trail).map Entry.name).reverse.drop 1)

/-- The entry at a path. -/
def entryAt (root : Entry) (path : String) : Except ReadError Entry := (root.locate path).map (·.1)

/-- The names that lead to a file that can be written at a path: one that is there, or a new one in
a directory that is there. -/
def writable? (root : Entry) (path : String) : Option (List String) :=
  match root.locate path with
  | .ok (e, names) => if e.isFile then some names else none
  | .error .missing => do
    let parts := Path.parts path
    let name ← parts.getLast?
    if Path.isAbsolute path || !Path.isName name then none
    else match root.follow [] parts.dropLast with
      | .ok (.directory above _, trail) =>
        some ((name :: above :: trail.map Entry.name).reverse.drop 1)
      | _ => none
  | .error _ => none

end Entry

end ClassRefactor
