import ClassRefactor.Tree.Class

/-!
# Synchronous and asynchronous methods

A method is asynchronous when it has the modifier `async`; its result is then wrapped in the
deferred type `Task`. Conversion changes the modifier and the return type and leaves the body alone.
-/

namespace ClassRefactor

inductive MethodMode where
  | sync
  | async
deriving DecidableEq, Repr, Inhabited

namespace MethodMode

def name : MethodMode → String
  | .sync => "sync"
  | .async => "async"

/-- The mode that a word names, in any case of its letters and with white space around it. -/
def ofName? (word : String) : Option MethodMode :=
  let word : String := .ofList ((Text.trim word.toList).map Char.toLower)
  if word == "sync" || word == "synchronous" then some .sync
  else if word == "async" || word == "asynchronous" then some .async
  else none

/-- The complaint about a word that names no mode. -/
def unknownMessage (word : String) : String :=
  "unknown method mode `" ++ word ++ "` (expected `sync` or `async`)"

end MethodMode

/-- Whether a type is the deferred type, by its short or its full name. -/
def TypeRef.isDeferred (t : TypeRef) : Bool :=
  let name := ("global::".toList.isPrefixOf? t.name.toList).getD t.name.toList
  t.suffix.isEmpty &&
    (name == "Task".toList || name == "System.Threading.Tasks.Task".toList)

namespace Method

def mode (m : Method) : MethodMode := if m.isAsync then .async else .sync

/-- The method without `async` and without one layer of the deferred type. -/
def toSync (m : Method) : Method :=
  { m with
    modifiers := m.modifiers.filter (· != "async")
    returnType :=
      if m.returnType.isDeferred then
        match m.returnType.args with
        | [] => .void
        | [inner] => inner
        | _ => m.returnType
      else m.returnType }

/-- The method with `async` and its result wrapped in the deferred type; unchanged if it is
asynchronous already. -/
def toAsync (m : Method) : Method :=
  if m.isAsync then m
  else
    { m with
      modifiers := m.modifiers ++ ["async"]
      returnType :=
        if m.returnType.isVoid then { name := "Task" }
        else { name := "Task", args := [m.returnType] } }

/-- The method in the given mode. A cancelled conversion changes nothing. -/
def convert (cancelled : Bool) (target : MethodMode) (m : Method) : Method :=
  if cancelled then m
  else match target with
    | .sync => m.toSync
    | .async => m.toAsync

end Method

end ClassRefactor
