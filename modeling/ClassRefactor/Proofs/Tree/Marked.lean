import ClassRefactor.Proofs.Tree.Plain

/-!
# Types with marks

A marked type is a name, possibly qualified, with marks after it, or such a name with marked types
as its arguments and marks after these. Marks are `?`, `*` and array ranks. However wide and deep
such a type is, it is read back from the text that it is written as.
-/

namespace ClassRefactor

open Code (Whole)

/-- Any number of `?`, `*` and array ranks. -/
inductive TypeMarks : Text → Prop
  | nil : TypeMarks []
  | nullable {t : Text} (h : TypeMarks t) : TypeMarks ('?' :: t)
  | pointer {t : Text} (h : TypeMarks t) : TypeMarks ('*' :: t)
  | rank (commas : Nat) {t : Text} (h : TypeMarks t) :
    TypeMarks ('[' :: (List.replicate commas ',' ++ ']' :: t))

/-- A cell of a name that may be qualified by `.` or `::`. -/
def isQualifiedCell (c : Char) : Bool := isPlainCell c || c == '.' || c == ':'

/-- A name that may be qualified. It ends with a letter, a digit or an underscore. -/
structure QualifiedName (t : Text) : Prop where
  cells : ∀ c ∈ t, isQualifiedCell c = true
  last : ∃ c, t.getLast? = some c ∧ isPlainCell c = true

/-- Names with marks, and names with marked types as arguments and marks after them. -/
inductive TypeRef.Marked : TypeRef → Prop
  | named {name : String} {base marks : Text} (hparts : name.toList = base ++ marks)
    (hbase : QualifiedName base) (hmarks : TypeMarks marks) : Marked ⟨name, [], ""⟩
  | generic {name suffix : String} {args : List TypeRef} (hname : QualifiedName name.toList)
    (hargs : args ≠ []) (hall : ∀ a ∈ args, Marked a) (hsuffix : TypeMarks suffix.toList) :
    Marked ⟨name, args, suffix⟩

/-- The commas of an array rank stand between its brackets. -/
theorem Code.whole_rank (commas : Nat) :
    Whole ('[' :: (List.replicate commas ',' ++ [']'])) := by
  have hcommas : List.replicate commas ',' = (List.replicate commas []).flatMap (',' :: ·) := by
    induction commas with
    | zero => rfl
    | succ n ih => rw [List.replicate_succ, List.replicate_succ, List.flatMap_cons, ← ih]; rfl
  have hempty : ∀ l ∈ List.replicate commas ([] : Code), Whole l := by
    intro l hl
    rw [List.eq_of_mem_replicate hl]
    exact ⟨rfl, rfl⟩
  have hinner : Code.stackAfter [']'] (List.replicate commas ',') = some [']'] := by
    rw [hcommas, stackAfter_commas hempty]
  refine ⟨?_, ?_⟩
  · rw [stackAfter_cons rfl, stackAfter_append, hinner]
    rfl
  · have hpush : push [] '[' = some [']'] := rfl
    rw [Code.tight, hpush, Option.any_some, tight_append hinner, hcommas,
      tight_commas hempty (by simp)]
    rfl

namespace TypeMarks

variable {t : Text} (h : TypeMarks t)
include h

theorem whole : Whole t := by
  have hone : ∀ {c : Char} {t : Text}, Code.isInert c = true → c ≠ ',' → isIdentCell c = false →
      Whole t → Whole (c :: t) := by
    intro c t hinert hcomma hident ht
    refine (Code.whole_of_inert (l := [c]) (by simpa using hinert) ?_).append ht (.inr ?_)
    · simpa using Ne.symm hcomma
    · simpa using hident
  induction h with
  | nil => exact ⟨rfl, rfl⟩
  | nullable _ ih => exact hone (by decide) (by decide) (by decide) ih
  | pointer _ ih => exact hone (by decide) (by decide) (by decide) ih
  | rank commas _ ih =>
    rw [List.append_cons, ← List.cons_append]
    refine (Code.whole_rank commas).append ih (.inr fun c hc => ?_)
    rw [← List.cons_append, List.getLast?_concat] at hc
    rw [← Option.some.inj hc]
    decide

theorem cells : ∀ c ∈ t, c ∈ ['?', '*', '[', ',', ']'] := by
  induction h with
  | nil => simp
  | nullable _ ih => exact List.forall_mem_cons.mpr ⟨by decide, ih⟩
  | pointer _ ih => exact List.forall_mem_cons.mpr ⟨by decide, ih⟩
  | rank commas _ ih =>
    refine List.forall_mem_cons.mpr ⟨by decide, fun c hc => ?_⟩
    rcases List.mem_append.mp hc with hc | hc
    · rw [List.eq_of_mem_replicate hc]
      decide
    · exact List.forall_mem_cons.mpr ⟨by decide, ih⟩ c hc

theorem not_mem_angle : '<' ∉ t := fun hmem => absurd (h.cells _ hmem) (by decide)

theorem solid : t.strip = t := by
  rw [Text.strip, List.filter_eq_self]
  intro c hc
  have hmarks : ∀ d ∈ ['?', '*', '[', ',', ']'], (!isWhite d) = true := by decide
  exact hmarks c (h.cells c hc)

end TypeMarks

namespace QualifiedName

/-- What holds of plain cells, of `.` and of `:` holds of the cells of a qualified name. -/
theorem forall_cell {t : Text} (h : QualifiedName t) {p : Char → Prop}
    (hplain : ∀ c, isPlainCell c = true → p c) (hdot : p '.') (hcolon : p ':') :
    ∀ c ∈ t, p c := by
  intro c hc
  have hcell := h.cells c hc
  simp only [isQualifiedCell, Bool.or_eq_true, beq_iff_eq] at hcell
  rcases hcell with (hcell | rfl) | rfl
  · exact hplain c hcell
  · exact hdot
  · exact hcolon

theorem ne_of_isPlainCell {c d : Char} (hd : isPlainCell d = false) (hc : isPlainCell c = true) :
    c ≠ d := by
  rintro rfl
  rw [hd] at hc
  cases hc

variable {t : Text} (h : QualifiedName t)
include h

theorem whole : Whole t := by
  refine Code.whole_of_inert (h.forall_cell (fun c hc => ?_) (by decide) (by decide)) fun hmem => ?_
  · exact Code.isInert_of_isIdentCell (isIdentCell_of_isPlainCell hc)
  · exact h.forall_cell (p := (· ≠ ',')) (fun c => ne_of_isPlainCell (by decide)) (by decide)
      (by decide) ',' hmem rfl

theorem solid : t.strip = t := by
  rw [Text.strip, List.filter_eq_self]
  refine h.forall_cell (fun c hc => ?_) (by decide) (by decide)
  rw [not_isWhite_of_isPlainCell hc]
  rfl

theorem head : ∃ c, t.head? = some c ∧ c ≠ '(' := by
  obtain ⟨d, hd, -⟩ := h.last
  have hne : t ≠ [] := by
    rintro rfl
    cases hd
  exact ⟨t.head hne, List.head?_eq_some_head hne,
    h.forall_cell (p := (· ≠ '(')) (fun c => ne_of_isPlainCell (by decide)) (by decide) (by decide)
      _ (List.head_mem hne)⟩

theorem last_ident : ∃ c, t.getLast? = some c ∧ isIdentCell c = true := by
  obtain ⟨c, hc, hplain⟩ := h.last
  exact ⟨c, hc, isIdentCell_of_isPlainCell hplain⟩

/-- A qualified name with marks after it, or with none. -/
theorem solidName {marks : Text} (hmarks : TypeMarks marks) : SolidName (t ++ marks) where
  whole := by
    refine h.whole.append hmarks.whole (.inl fun hhead => ?_)
    exact hmarks.not_mem_angle (List.mem_of_mem_head? hhead)
  solid := by rw [Text.strip_append, h.solid, hmarks.solid]
  head := by
    obtain ⟨c, hc, hne⟩ := h.head
    exact ⟨c, by rw [List.head?_append, hc]; rfl, hne⟩
  simple := by
    rw [List.mem_append, not_or]
    exact ⟨fun hmem => h.forall_cell (p := (· ≠ '<')) (fun c => ne_of_isPlainCell (by decide))
      (by decide) (by decide) '<' hmem rfl, hmarks.not_mem_angle⟩

end QualifiedName

namespace TypeRef

theorem Marked.legible {t : TypeRef} (h : t.Marked) : t.Legible := by
  induction h with
  | named hparts hbase hmarks =>
    refine .named ?_
    rw [hparts]
    exact hbase.solidName hmarks
  | generic hname hargs hall hsuffix ih =>
    have hsolid : SolidName _ := hname.solidName .nil
    rw [List.append_nil] at hsolid
    exact .generic hsolid hname.last_ident hargs ih hsuffix.whole hsuffix.solid

/-- Every marked type is read back from the text that it is written as. -/
theorem parse_render_of_marked {t : TypeRef} (h : t.Marked) : parse t.render.toList = t :=
  h.legible.parse_render

/-- Argument lists within argument lists, and ranks that hold commas between them. -/
def crowdedType : TypeRef :=
  ⟨"N.Map", [⟨"int[,]?", [], ""⟩, ⟨"List", [⟨"a::b.C*", [], ""⟩, ⟨"T[,,][]", [], ""⟩], "[]?"⟩],
    "?[,]"⟩

theorem parse_render_of_marked_crowdedType :
    crowdedType.Marked ∧ parse "N.Map<int[,]?, List<a::b.C*, T[,,][]>[]?>?[,]".toList =
      crowdedType := by
  have hpointer : Marked ⟨"a::b.C*", [], ""⟩ :=
    @Marked.named _ "a::b.C".toList ['*'] rfl ⟨by decide, 'C', rfl, by decide⟩ (.pointer .nil)
  have hranks : Marked ⟨"T[,,][]", [], ""⟩ :=
    @Marked.named _ ['T'] "[,,][]".toList rfl ⟨by decide, 'T', rfl, by decide⟩
      (.rank 2 (.rank 0 .nil))
  have hnullable : Marked ⟨"int[,]?", [], ""⟩ :=
    @Marked.named _ "int".toList "[,]?".toList rfl ⟨by decide, 't', rfl, by decide⟩
      (.rank 1 (.nullable .nil))
  have hlist : Marked ⟨"List", [⟨"a::b.C*", [], ""⟩, ⟨"T[,,][]", [], ""⟩], "[]?"⟩ :=
    .generic ⟨by decide, 't', rfl, by decide⟩ (List.cons_ne_nil _ _)
      (List.forall_mem_cons.mpr ⟨hpointer, List.forall_mem_singleton.mpr hranks⟩)
      (.rank 0 (.nullable .nil))
  have hargs : ∀ a ∈ crowdedType.args, a.Marked :=
    List.forall_mem_cons.mpr ⟨hnullable, List.forall_mem_singleton.mpr hlist⟩
  have hmarked : crowdedType.Marked :=
    .generic ⟨by decide, 'p', rfl, by decide⟩ (List.cons_ne_nil _ _) hargs
      (.nullable (.rank 1 .nil))
  exact ⟨hmarked, parse_render_of_marked hmarked⟩

end TypeRef

end ClassRefactor
