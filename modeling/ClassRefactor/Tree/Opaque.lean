import ClassRefactor.Text.White

/-!
# Opaque text

Source text that is carried through untouched. Two opaque texts are equal when they have the same
words, so that formatting does not tell them apart.
-/

namespace ClassRefactor

/-- Verbatim source text. -/
structure OpaqueText where
  text : String
deriving Repr, Inhabited

namespace OpaqueText

/-- Keeps a piece of source without the white space around it. -/
def ofText (t : Text) : OpaqueText := ⟨.ofList t.trim⟩

/-- The words of an opaque text. -/
def words (o : OpaqueText) : List Text := Text.words o.text.toList

instance : BEq OpaqueText := ⟨fun a b => a.words == b.words⟩

end OpaqueText

end ClassRefactor
