import ClassRefactor.Proofs.Code.Quiet
import ClassRefactor.Proofs.Layout.Modifier
import ClassRefactor.Proofs.Source.Assignment
import ClassRefactor.Proofs.Tree.WellFormed

/-!
# Plain trees

Classes whose members are fields, constructors and methods without anything that is kept as text:
names of ASCII letters, digits and underscores, types that are nested generics over such names, and
bodies that assign names to names.
-/

namespace ClassRefactor

/-- The words that mean something to a declaration or a statement. -/
def reservedWords : List String :=
  typeModifiers ++ memberModifiers ++ parameterModifiers ++ declarationKeywords ++
    Statement.literalKeywords ++ ["where"]

def isPlainCell (c : Char) : Bool := c.isAlphanum || c == '_'

/-- An ASCII identifier that is no reserved word. -/
structure PlainName (s : String) : Prop where
  head : ∃ c rest, s.toList = c :: rest ∧ (c.isAlpha || c == '_') = true
  cells : ∀ c ∈ s.toList, isPlainCell c = true
  free : s ∉ reservedWords

theorem plainName_iff {s : String} :
    PlainName s ↔ (s.toList.head?.any fun c => c.isAlpha || c == '_') = true ∧
      (∀ c ∈ s.toList, isPlainCell c = true) ∧ s ∉ reservedWords := by
  constructor
  · rintro ⟨⟨c, rest, hs, halpha⟩, hcells, hfree⟩
    exact ⟨by rw [hs]; exact halpha, hcells, hfree⟩
  · rintro ⟨hhead, hcells, hfree⟩
    cases hs : s.toList with
    | nil => simp [hs] at hhead
    | cons c rest =>
      rw [hs] at hhead
      exact ⟨⟨c, rest, hs, hhead⟩, hcells, hfree⟩

instance (s : String) : Decidable (PlainName s) := decidable_of_iff' _ plainName_iff

/-- Nested generics over plain names. -/
inductive TypeRef.Plain : TypeRef → Prop
  | mk {name : String} {args : List TypeRef} (hname : PlainName name)
    (hargs : ∀ a ∈ args, TypeRef.Plain a) : TypeRef.Plain ⟨name, args, ""⟩

structure Parameter.Plain (p : Parameter) : Prop where
  modifiers : ∀ m ∈ p.modifiers, m ∈ parameterModifiers
  type : p.type.Plain
  name : PlainName p.name
  default : p.default = none

inductive Statement.Plain : Statement → Prop
  | assignment {target value : String} (htarget : PlainName target) (hvalue : PlainName value) :
    Statement.Plain (.assignment target value)

inductive Body.Plain : Body → Prop
  | absent : Body.Plain .absent
  | block {statements : List Statement} (h : ∀ s ∈ statements, s.Plain) :
    Body.Plain (.block statements)

structure Field.Plain (f : Field) : Prop where
  modifiers : ∀ m ∈ f.modifiers, m ∈ memberModifiers
  type : f.type.Plain
  some : f.declarators ≠ []
  declarators : ∀ v ∈ f.declarators, PlainName v.name ∧ v.initializer = none

/-- A constructor of the named class. -/
structure Constructor.Plain (className : String) (c : Constructor) : Prop where
  name : c.name = className
  modifiers : ∀ m ∈ c.modifiers, m ∈ memberModifiers
  parameters : ∀ p ∈ c.parameters, p.Plain
  initializer : c.initializer = none
  body : c.body.Plain

structure Method.Plain (m : Method) : Prop where
  name : PlainName m.name
  typeParams : m.typeParams = none
  modifiers : ∀ w ∈ m.modifiers, w ∈ memberModifiers
  returnType : m.returnType.Plain
  parameters : ∀ p ∈ m.parameters, p.Plain
  constraints : m.constraints = none
  body : m.body.Plain

inductive Member.Plain (className : String) : Member → Prop
  | field {f : Field} (h : f.Plain) : Member.Plain className (.field f)
  | constructor {c : Constructor} (h : c.Plain className) : Member.Plain className (.constructor c)
  | method {m : Method} (h : m.Plain) : Member.Plain className (.method m)

structure ClassNode.Plain (c : ClassNode) : Prop where
  name : PlainName c.name
  typeParams : c.typeParams = none
  modifiers : ∀ m ∈ c.modifiers, m ∈ typeModifiers
  bases : c.bases = none
  members : ∀ m ∈ c.members, m.Plain c.name

/-! Plain cells. -/

theorem lt_of_isPlainCell {c : Char} (h : isPlainCell c = true) : c.toNat < 128 := by
  have hcode : c.toNat = c.val.toNat := rfl
  delta isPlainCell Char.isAlphanum Char.isAlpha Char.isUpper Char.isLower Char.isDigit at h
  simp only [Bool.or_eq_true, Bool.and_eq_true, decide_eq_true_eq, beq_iff_eq, ge_iff_le,
    UInt32.le_iff_toNat_le] at h
  rcases h with ((h | h) | h) | rfl
  · have : 'Z'.val.toNat = 90 := rfl
    omega
  · have : 'z'.val.toNat = 122 := rfl
    omega
  · have : '9'.val.toNat = 57 := rfl
    omega
  · decide

/-- What holds of the plain cells among the first characters holds of all plain cells. -/
theorem forall_plainCell {p : Char → Bool}
    (h : ∀ n < 128, isPlainCell (.ofNat n) = true → p (.ofNat n) = true) {c : Char}
    (hc : isPlainCell c = true) : p c = true := by
  have := h c.toNat (lt_of_isPlainCell hc)
  rw [Char.ofNat_toNat] at this
  exact this hc

/-- A character of one byte that begins neither a comment nor a literal. -/
def isPrinted (c : Char) : Bool := c.toNat < 128 && isQuiet c

theorem isPrinted_of_isPlainCell {c : Char} (h : isPlainCell c = true) : isPrinted c = true :=
  forall_plainCell (by decide +kernel) h

theorem isIdentCell_of_isPlainCell {c : Char} (h : isPlainCell c = true) :
    isIdentCell c = true := by
  simp only [isPlainCell, Bool.or_eq_true] at h
  rcases h with h | h <;> simp [isIdentCell, h]

theorem not_isWhite_of_isPlainCell {c : Char} (h : isPlainCell c = true) : isWhite c = false := by
  have : (!isWhite c) = true := forall_plainCell (p := fun c => !isWhite c) (by decide +kernel) h
  simpa using this

theorem continues_of_isPlainCell {c : Char} (h : isPlainCell c = true) :
    Statement.continues c = true :=
  forall_plainCell (by decide +kernel) h

theorem starts_of_isAlpha {c : Char} (h : (c.isAlpha || c == '_') = true) :
    Statement.starts c = true := by
  have hplain : isPlainCell c = true := by
    simp only [Bool.or_eq_true] at h
    rcases h with h | h <;> simp [isPlainCell, Char.isAlphanum, h]
  have : (!(c.isAlpha || c == '_') || Statement.starts c) = true :=
    forall_plainCell (p := fun c => !(c.isAlpha || c == '_') || Statement.starts c)
      (by decide +kernel) hplain
  simpa [h] using this

/-! Plain names. -/

namespace PlainName

variable {s : String} (h : PlainName s)
include h

theorem ne_nil : s.toList ≠ [] := by
  obtain ⟨c, rest, hs, -⟩ := h.head
  simp [hs]

theorem ident : ∀ c ∈ s.toList, isIdentCell c = true :=
  fun c hc => isIdentCell_of_isPlainCell (h.cells c hc)

theorem head_ident (rest : Code) :
    ∃ c, (s.toList ++ rest).head? = some c ∧ isIdentCell c = true := by
  refine ⟨s.toList.head h.ne_nil, ?_, h.ident _ (List.head_mem _)⟩
  rw [List.head?_append, List.head?_eq_some_head h.ne_nil]
  rfl

theorem undeclared : Code.Undeclared s.toList := by
  refine Code.undeclared_of_ident h.ident fun k hk heq => h.free ?_
  rw [String.toList_inj.mp heq]
  simp [reservedWords, hk]

/-- A plain name is none of the words of a list of reserved words. -/
theorem known?_eq_none {known : List String} (hknown : ∀ k ∈ known, k ∈ reservedWords) :
    Code.known? known s.toList = none := by
  rw [Code.known?, List.find?_eq_none]
  intro k hk heq
  rw [beq_iff_eq, String.toList_inj] at heq
  exact h.free (heq ▸ hknown k hk)

theorem strip : Text.strip s.toList = s.toList := by
  rw [Text.strip, List.filter_eq_self]
  intro c hc
  simp [not_isWhite_of_isPlainCell (h.cells c hc)]

theorem isName : Statement.isName s = true := by
  obtain ⟨c, rest, hs, hc⟩ := h.head
  refine Statement.isName_iff.mpr ⟨.inl ⟨c, rest, hs, starts_of_isAlpha hc, fun d hd => ?_⟩, ?_⟩
  · exact continues_of_isPlainCell (h.cells d (by simp [hs, hd]))
  · exact fun hmem => h.free (by simp [reservedWords, hmem])

end PlainName

/-! Printed text: its cells are its characters, and it is its own mask. -/

/-- Text of printed characters. -/
def Printed (t : Text) : Prop := ∀ c ∈ t, isPrinted c = true

theorem PlainName.printed {s : String} (h : PlainName s) : Printed s.toList :=
  fun c hc => isPrinted_of_isPlainCell (h.cells c hc)

theorem utf8Size_of_isPrinted {c : Char} (h : isPrinted c = true) : c.utf8Size = 1 := by
  simp only [isPrinted, Bool.and_eq_true, decide_eq_true_eq] at h
  have hle : c.val ≤ 127 := by
    rw [UInt32.le_iff_toNat_le]
    exact Nat.le_of_lt_succ h.1
  simp [Char.utf8Size, hle]

namespace Printed

variable {t u : Text}

theorem append (ht : Printed t) (hu : Printed u) : Printed (t ++ u) := by
  intro c hc
  exact (List.mem_append.mp hc).elim (ht c) (hu c)

theorem cons {c : Char} (ht : Printed t) (hc : isPrinted c = true) : Printed (c :: t) := by
  intro d hd
  rcases List.mem_cons.mp hd with rfl | hd
  · exact hc
  · exact ht d hd

variable (h : Printed t)
include h

theorem cells : t.cells = t := by
  induction t with
  | nil => rfl
  | cons c t ih =>
    have hc := utf8Size_of_isPrinted (h c List.mem_cons_self)
    have ht := ih fun d hd => h d (List.mem_cons_of_mem _ hd)
    rw [← List.singleton_append, Text.cells_append, ht]
    simp [Text.cells, hc]

theorem size : t.size = t.length := by
  rw [← Text.length_cells, h.cells]

theorem mask : t.mask = t :=
  Text.mask_quiet fun c hc => by
    have := h c hc
    simp only [isPrinted, Bool.and_eq_true] at this
    exact this.2

theorem ofText : Source.ofText t = ⟨t, t⟩ := by
  rw [Source.ofText, h.mask]

end Printed

theorem PlainName.nameText {s : String} (h : PlainName s) : NameText s.toList where
  cells c hc := by simp [isTypeCell, h.ident c hc]
  whole := Code.whole_of_ident h.ident
  undeclared := by rw [h.printed.cells]; exact h.undeclared
  head := by
    obtain ⟨c, rest, hs, -⟩ := h.head
    exact ⟨c, rest, hs, h.ident c (by simp [hs])⟩
  leads := by
    rw [h.printed.cells, List.takeWhile_eq_self_iff.mpr h.ident]
    exact h.known?_eq_none (by decide)
  simple := by
    constructor <;> intro hmem <;> exact absurd (h.ident _ hmem) (by decide)
  solid := h.strip

/-- Plain types are well formed. -/
theorem TypeRef.Plain.wellFormed {t : TypeRef} (h : t.Plain) : t.WellFormed := by
  induction h with
  | @mk name args hname hargs ih =>
    cases args with
    | nil => exact .named hname.nameText
    | cons a as =>
      refine .generic hname.nameText ?_ (by simp) ih ?_
      · refine ⟨_, List.getLast?_eq_some_getLast hname.ne_nil, ?_⟩
        exact hname.ident _ (List.getLast_mem _)
      · exact ⟨⟨by simp, ⟨rfl, rfl⟩, Code.undeclared_nil⟩, by simp, rfl⟩

/-- A plain type is written with plain cells and the marks of type arguments. -/
theorem TypeRef.Plain.cells {t : TypeRef} (h : t.Plain) :
    ∀ c ∈ t.render.toList, isPlainCell c = true ∨ c ∈ ['<', '>', ',', ' '] := by
  induction h with
  | @mk name args hname hargs ih =>
    cases args with
    | nil =>
      intro c hc
      rw [TypeRef.render_bare] at hc
      exact .inl (hname.cells c hc)
    | cons a as =>
      intro c hc
      simp only [TypeRef.render_generic, List.mem_append, List.mem_cons, List.mem_flatMap,
        List.mem_map] at hc
      rcases hc with hc | rfl | (hc | ⟨t, ⟨b, hb, rfl⟩, rfl | hc⟩) | rfl | hc
      · exact .inl (hname.cells c hc)
      · exact .inr (by decide)
      · exact ih a List.mem_cons_self c hc
      · exact .inr (by decide)
      · rcases List.mem_cons.mp hc with rfl | hc
        · exact .inr (by decide)
        · exact ih b (List.mem_cons_of_mem _ hb) c hc
      · exact .inr (by decide)
      · simp at hc

theorem TypeRef.Plain.printed {t : TypeRef} (h : t.Plain) : Printed t.render.toList := by
  intro c hc
  rcases h.cells c hc with hplain | hmark
  · exact isPrinted_of_isPlainCell hplain
  · have hmarks : ∀ d ∈ ['<', '>', ',', ' '], isPrinted d = true := by decide
    exact hmarks c hmark

theorem TypeRef.Plain.undeclared {t : TypeRef} (h : t.Plain) :
    Code.Undeclared t.render.toList := by
  have := h.wellFormed.typeText.undeclared
  rwa [h.printed.cells] at this

theorem TypeRef.Plain.not_mem_paren {t : TypeRef} (h : t.Plain) : '(' ∉ t.render.toList := by
  intro hmem
  rcases h.cells _ hmem with hplain | hmark
  · exact absurd hplain (by decide)
  · exact absurd hmark (by decide)

end ClassRefactor
