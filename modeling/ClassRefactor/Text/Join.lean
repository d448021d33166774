import ClassRefactor.Text.Basic

/-!
# Joining and splitting
-/

namespace ClassRefactor

/-- The texts with a separator between each two. -/
def joinWith (separator : String) : List String → String
  | [] => ""
  | [s] => s
  | s :: t :: rest => s ++ separator ++ joinWith separator (t :: rest)

/-- The texts one after another. -/
def concat : List String → String
  | [] => ""
  | s :: rest => s ++ concat rest

/-- The pieces between the occurrences of a character. -/
def Text.splitAtChar (mark : Char) : Text → List Text
  | [] => [[]]
  | c :: t =>
    if c == mark then [] :: splitAtChar mark t
    else match splitAtChar mark t with
      | [] => [[c]]
      | piece :: rest => (c :: piece) :: rest

/-- Whether a text holds another. -/
def Text.includes : Text → Text → Bool
  | [], part => part.isEmpty
  | c :: t, part => part.isPrefixOf (c :: t) || includes t part

end ClassRefactor
