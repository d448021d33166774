import ClassRefactor.Proofs.Code.Word
import ClassRefactor.Proofs.Layout.Nest
import ClassRefactor.Proofs.Tree.Legible

/-!
# Well-formed types

A type is well formed when it is a name, a tuple, or a name with well-formed arguments, written with
the cells of identifiers and the marks of types alone, and free of the words that mean something
else to a declaration. Such a type is read back from the text that it is written as.
-/

namespace ClassRefactor

open Code (stackAfter Whole Undeclared)

/-- The cells that a type may be written with. -/
def isTypeCell (c : Char) : Bool :=
  isIdentCell c || c == '.' || c == ':' || c == '?' || c == '*' || c == ',' || c == ' ' ||
    c == '(' || c == ')' || c == '[' || c == ']' || c == '<' || c == '>'

/-- A part of a type as it is written. -/
structure TypeText (t : Text) : Prop where
  cells : ∀ c ∈ t, isTypeCell c = true
  whole : Whole t
  undeclared : Undeclared t.cells

/-- A name, possibly qualified and with marks: it begins with a word that is no modifier. -/
structure NameText (t : Text) : Prop extends TypeText t where
  head : ∃ c rest, t = c :: rest ∧ isIdentCell c = true
  leads : Code.known? memberModifiers (t.cells.takeWhile isIdentCell) = none
  simple : '<' ∉ t ∧ '(' ∉ t
  solid : t.strip = t

/-- What may follow a list of type arguments. -/
structure SuffixText (t : Text) : Prop extends TypeText t where
  simple : '(' ∉ t
  solid : t.strip = t

/-- A tuple: one pair of parentheses, and marks after it. -/
structure TupleText (t inner suffix : Text) : Prop extends TypeText t where
  parts : t = '(' :: inner ++ ')' :: suffix
  closed : stackAfter [] inner = some []
  simple : '(' ∉ suffix
  solid : suffix.strip = suffix
  compact : t.compact = t

/-- Types that are read back as they are written. -/
inductive TypeRef.WellFormed : TypeRef → Prop
  | named {name : String} (hname : NameText name.toList) : WellFormed ⟨name, [], ""⟩
  | tuple {name : String} {inner suffix : Text} (htuple : TupleText name.toList inner suffix) :
    WellFormed ⟨name, [], ""⟩
  | generic {name suffix : String} {args : List TypeRef} (hname : NameText name.toList)
    (hlast : ∃ c, name.toList.getLast? = some c ∧ isIdentCell c = true) (hargs : args ≠ [])
    (hall : ∀ a ∈ args, WellFormed a) (hsuffix : SuffixText suffix.toList) :
    WellFormed ⟨name, args, suffix⟩

/-! The text of a type. -/

theorem TypeText.space {t : Text} (h : TypeText t) : TypeText (' ' :: t) := by
  refine ⟨?_, h.whole.space, ?_⟩
  · simpa [isTypeCell] using h.cells
  · have hcells : Text.cells (' ' :: t) = [] ++ ' ' :: t.cells := rfl
    rw [hcells]
    exact Code.undeclared_nil.split (by decide) h.undeclared

/-- A list of type arguments inside its angle brackets. -/
theorem cells_commas (ts : List Text) :
    Text.cells (ts.flatMap (',' :: ·)) = (ts.map Text.cells).flatMap (',' :: ·) := by
  induction ts with
  | nil => rfl
  | cons t ts ih =>
    have hcomma : Text.cells (',' :: (t ++ ts.flatMap (',' :: ·))) =
        ',' :: Text.cells (t ++ ts.flatMap (',' :: ·)) := rfl
    rw [List.flatMap_cons, List.cons_append, hcomma, Text.cells_append, ih]
    rfl

theorem TypeText.generic {name arg suffix : Text} {args : List Text} (hname : NameText name)
    (hlast : ∃ c, name.getLast? = some c ∧ isIdentCell c = true) (harg : TypeText arg)
    (hargs : ∀ t ∈ args, TypeText t) (hsuffix : SuffixText suffix) :
    TypeText (name ++ '<' :: (arg ++ args.flatMap (',' :: ·) ++ '>' :: suffix)) := by
  refine ⟨?_, hname.whole.generic hlast harg.whole (fun t ht => (hargs t ht).whole)
    hsuffix.whole, ?_⟩
  · intro c hc
    simp only [List.mem_append, List.mem_cons, List.mem_flatMap] at hc
    rcases hc with h | rfl | (h | ⟨t, ht, rfl | h⟩) | rfl | h
    · exact hname.cells c h
    · decide
    · exact harg.cells c h
    · decide
    · exact (hargs t ht).cells c h
    · decide
    · exact hsuffix.cells c h
  · have hcells : Text.cells (name ++ '<' :: (arg ++ args.flatMap (',' :: ·) ++ '>' :: suffix)) =
        name.cells ++ '<' :: (arg.cells ++ (args.map Text.cells).flatMap (',' :: ·) ++
          '>' :: suffix.cells) := by
      have hangle : ∀ (c : Char) (t : Text), c.utf8Size = 1 →
          Text.cells (c :: t) = c :: t.cells := by
        intro c t hc
        simp [hc]
      rw [Text.cells_append, hangle '<' _ rfl, Text.cells_append, Text.cells_append,
        hangle '>' _ rfl, cells_commas]
    rw [hcells]
    refine hname.undeclared.split (by decide) (.split (by decide) ?_ hsuffix.undeclared)
    refine Code.undeclared_commas (fun l hl => ?_) harg.undeclared
    obtain ⟨t, ht, rfl⟩ := List.mem_map.mp hl
    exact (hargs t ht).undeclared

theorem NameText.solidName {t : Text} (h : NameText t) : SolidName t where
  whole := h.whole
  solid := h.solid
  head := by
    obtain ⟨c, rest, rfl, hc⟩ := h.head
    refine ⟨c, rfl, ?_⟩
    rintro rfl
    exact absurd hc (by decide)
  simple := h.simple.1

namespace TypeRef

theorem WellFormed.typeText {t : TypeRef} (h : t.WellFormed) : TypeText t.render.toList := by
  induction h with
  | named hname => rw [render_bare]; exact hname.toTypeText
  | tuple htuple => rw [render_bare]; exact htuple.toTypeText
  | @generic name suffix args hname hlast hargs hall hsuffix ih =>
    cases args with
    | nil => exact absurd rfl hargs
    | cons a as =>
      rw [render_generic]
      refine TypeText.generic hname hlast (ih a List.mem_cons_self) (fun t ht => ?_) hsuffix
      obtain ⟨b, hb, rfl⟩ := List.mem_map.mp ht
      exact (ih b (List.mem_cons_of_mem _ hb)).space

/-- A written type begins with an identifier cell or a parenthesis. -/
theorem WellFormed.head {t : TypeRef} (h : t.WellFormed) :
    ∃ c rest, t.render.toList = c :: rest ∧ isWhite c = false ∧
      (isIdentCell c = true ∨ c = '(') := by
  have hname : ∀ {name : Text}, NameText name → ∃ c rest, name = c :: rest ∧
      isWhite c = false ∧ (isIdentCell c = true ∨ c = '(') := by
    intro name hname
    obtain ⟨c, rest, rfl, hc⟩ := hname.head
    exact ⟨c, rest, rfl, Text.not_mem_white_of_strip hname.solid List.mem_cons_self, .inl hc⟩
  cases h with
  | named h => rw [render_bare]; exact hname h
  | tuple h =>
    rw [render_bare, h.parts]
    exact ⟨'(', _, rfl, by decide, .inr rfl⟩
  | @generic name suffix args h hlast hargs hall hsuffix =>
    cases args with
    | nil => exact absurd rfl hargs
    | cons a as =>
      obtain ⟨c, rest, hc, hw⟩ := hname h
      rw [render_generic, hc]
      exact ⟨c, _, rfl, hw⟩

/-- A well-formed type is read back from its text. -/
theorem WellFormed.legible {t : TypeRef} (h : t.WellFormed) : t.Legible := by
  induction h with
  | named hname => exact .named hname.solidName
  | tuple htuple =>
    refine .tuple htuple.whole ?_ ?_ htuple.compact
    · rw [htuple.parts]
      rfl
    · rw [htuple.parts]
      exact Text.last_append_of_strip _ (by decide) htuple.solid
  | generic hname hlast hargs hall hsuffix ih =>
    exact .generic hname.solidName hlast hargs ih hsuffix.whole hsuffix.solid

end TypeRef

end ClassRefactor
