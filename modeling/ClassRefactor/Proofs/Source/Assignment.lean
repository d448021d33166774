import ClassRefactor.Proofs.Source.File
import ClassRefactor.Proofs.Text.Strip
import ClassRefactor.Tree.Render

/-!
# Which assignments can be read

An assignment is read only if a name stands on each side of it, and a literal such as `null` is no
name. So an assignment that is printed is read back exactly when both of its sides are names.
-/

namespace ClassRefactor

theorem isLetter_of_isWhite {c : Char} (h : isWhite c = true) : isLetter c = false := by
  have hcode : c.toNat ∈ [0x9, 0xA, 0xB, 0xC, 0xD, 0x20, 0x85, 0xA0, 0x1680, 0x2000, 0x2001, 0x2002,
      0x2003, 0x2004, 0x2005, 0x2006, 0x2007, 0x2008, 0x2009, 0x200A, 0x2028, 0x2029, 0x202F,
      0x205F, 0x3000] := by
    simp only [isWhite, Bool.or_eq_true, Bool.and_eq_true, decide_eq_true_eq, beq_iff_eq] at h
    simp only [List.mem_cons, List.not_mem_nil, or_false]
    omega
  unfold isLetter isInRanges
  generalize c.toNat = n at hcode
  revert n
  decide +kernel

namespace Statement

def starts (c : Char) : Bool := isLetter c || c == '_'

def continues (c : Char) : Bool := isLetter c || isNumber c || c == '_'

/-- Splits an identifier without a mark from the front of a text. -/
def splitPlain? : Text → Option (Text × Text)
  | [] => none
  | c :: rest =>
    if starts c then some (c :: rest.takeWhile continues, rest.dropWhile continues) else none

theorem splitIdent?_mark (t : Text) :
    splitIdent? ('@' :: t) = (splitPlain? t).map fun p => ('@' :: p.1, p.2) := by
  cases t with
  | nil => rfl
  | cons c rest =>
    show (if starts c then some ('@' :: c :: rest.takeWhile continues, rest.dropWhile continues)
      else none) = _
    rw [splitPlain?]
    split <;> rfl

theorem splitIdent?_of_ne {t : Text} (h : t.head? ≠ some '@') : splitIdent? t = splitPlain? t := by
  unfold splitIdent?
  split
  rename_i mark t' heq
  split at heq
  · exact absurd rfl h
  · obtain ⟨rfl, rfl⟩ := Prod.mk.inj heq
    cases t <;> rfl

/-- An identifier without a mark: a cell to start with, then cells to go on with. -/
def IsPlain (t : Text) : Prop :=
  ∃ c rest, t = c :: rest ∧ starts c = true ∧ ∀ d ∈ rest, continues d = true

/-- The identifier that is split off ends where the text goes on with something else. -/
theorem splitPlain?_eq_some_iff {t u v : Text} :
    splitPlain? t = some (u, v) ↔
      IsPlain u ∧ t = u ++ v ∧ ∀ d, v.head? = some d → continues d = false := by
  constructor
  · intro h
    cases t with
    | nil => cases h
    | cons c rest =>
      rw [splitPlain?] at h
      split at h
      · rename_i hc
        obtain ⟨rfl, rfl⟩ := Prod.mk.inj (Option.some.inj h)
        refine ⟨⟨c, _, rfl, hc, List.all_eq_true.mp List.all_takeWhile⟩, ?_, fun d hd => ?_⟩
        · rw [List.cons_append, List.takeWhile_append_dropWhile]
        · have := List.head?_dropWhile_not continues rest
          rw [hd] at this
          simpa using this
      · cases h
  · rintro ⟨⟨c, rest, rfl, hc, hrest⟩, rfl, hv⟩
    rw [List.cons_append, splitPlain?, if_pos hc, List.takeWhile_append_of_pos hrest,
      List.dropWhile_append_of_pos hrest]
    cases v with
    | nil => simp
    | cons d v =>
      have := hv d rfl
      simp [this]

/-- An identifier, with or without a mark. -/
def IsIdent (t : Text) : Prop := IsPlain t ∨ ∃ u, IsPlain u ∧ t = '@' :: u

theorem splitIdent?_eq_some_iff {t u v : Text} :
    splitIdent? t = some (u, v) ↔
      IsIdent u ∧ t = u ++ v ∧ ∀ d, v.head? = some d → continues d = false := by
  have hmark : starts '@' = false := by decide +kernel
  by_cases h : t.head? = some '@'
  · obtain ⟨t, rfl⟩ : ∃ t', t = '@' :: t' := by
      cases t with
      | nil => cases h
      | cons c t => exact ⟨t, by rw [Option.some.inj h]⟩
    rw [splitIdent?_mark]
    simp only [Option.map_eq_some_iff, Prod.mk.injEq, Prod.exists, splitPlain?_eq_some_iff]
    constructor
    · rintro ⟨u', v', ⟨hu, rfl, hv⟩, rfl, rfl⟩
      exact ⟨.inr ⟨u', hu, rfl⟩, rfl, hv⟩
    · rintro ⟨⟨c, rest, rfl, hc, -⟩ | ⟨u', hu, rfl⟩, heq, hv⟩
      · rw [← (List.cons.inj heq).1, hmark] at hc
        cases hc
      · exact ⟨u', v, ⟨hu, (List.cons.inj heq).2, hv⟩, rfl, rfl⟩
  · rw [splitIdent?_of_ne h, splitPlain?_eq_some_iff]
    constructor
    · rintro ⟨hu, hrest⟩
      exact ⟨.inl hu, hrest⟩
    · rintro ⟨hu | ⟨u', -, rfl⟩, rfl, hv⟩
      · exact ⟨hu, rfl, hv⟩
      · exact absurd rfl h

/-- Whether a word stands for a name in an assignment. -/
def isName (word : String) : Bool :=
  splitIdent? word.toList == some (word.toList, []) && !literalKeywords.contains word

theorem isName_iff {word : String} :
    isName word = true ↔ IsIdent word.toList ∧ word ∉ literalKeywords := by
  simp [isName, splitIdent?_eq_some_iff]

/-- What is read as an assignment has names on both sides. -/
theorem names_of_ofText_eq {text masked : Text} {target value : String}
    (h : ofText text masked = .assignment target value) :
    isName target = true ∧ isName value = true := by
  unfold ofText at h
  split at h
  · rename_i target' value' hnames
    split at h
    · cases h
    · rename_i hkeywords
      obtain ⟨rfl, rfl⟩ := Statement.assignment.inj h
      simp only [Bool.or_eq_true, List.contains_iff_mem, not_or] at hkeywords
      split at hnames
      · simp only [assignmentNames?, Option.bind_eq_bind, Option.bind_eq_some_iff] at hnames
        obtain ⟨⟨u, v⟩, hu, hnames⟩ := hnames
        simp only at hnames
        split at hnames
        · obtain ⟨⟨u', v'⟩, hu', hnames⟩ := Option.bind_eq_some_iff.mp hnames
          split at hnames
          · obtain ⟨rfl, rfl⟩ := Prod.mk.inj (Option.some.inj hnames)
            simp only [isName_iff, String.toList_ofList]
            exact ⟨⟨(splitIdent?_eq_some_iff.mp hu).1, hkeywords.1⟩,
              (splitIdent?_eq_some_iff.mp hu').1, hkeywords.2⟩
          · cases hnames
        · cases hnames
      · cases hnames
  · cases h

theorem not_isWhite_of_starts {c : Char} (h : starts c = true) : isWhite c = false := by
  by_contra hwhite
  have hwhite : isWhite c = true := by simpa using hwhite
  have hletter := isLetter_of_isWhite hwhite
  simp only [starts, hletter, Bool.false_or, beq_iff_eq] at h
  subst h
  cases hwhite

/-- Trimming leaves an identifier and what follows it as they are. -/
theorem IsIdent.trimStart_append {u : Text} (hu : IsIdent u) (v : Text) :
    Text.trimStart (u ++ v) = u ++ v := by
  rcases hu with ⟨c, rest, rfl, hc, -⟩ | ⟨u', -, rfl⟩
  · simp [Text.trimStart, not_isWhite_of_starts hc]
  · rfl

theorem assignmentNames?_append {target value : Text} (htarget : IsIdent target)
    (hvalue : IsIdent value) :
    assignmentNames? (target ++ " = ".toList ++ value ++ [';']) =
      some (.ofList target, .ofList value) := by
  have hspace : continues ' ' = false := by decide +kernel
  have hsemicolon : continues ';' = false := by decide +kernel
  have hfirst : splitIdent? (target ++ " = ".toList ++ value ++ [';']) =
      some (target, " = ".toList ++ value ++ [';']) := by
    rw [splitIdent?_eq_some_iff]
    refine ⟨htarget, by simp, fun d hd => ?_⟩
    rw [← Option.some.inj hd]
    exact hspace
  have hmiddle : Text.trimStart (" = ".toList ++ value ++ [';']) =
      '=' :: ' ' :: (value ++ [';']) := rfl
  have hspaced : Text.trimStart (' ' :: (value ++ [';'])) = value ++ [';'] := by
    show Text.trimStart (value ++ [';']) = _
    exact hvalue.trimStart_append _
  have hsecond : splitIdent? (value ++ [';']) = some (value, [';']) := by
    rw [splitIdent?_eq_some_iff]
    refine ⟨hvalue, rfl, fun d hd => ?_⟩
    rw [← Option.some.inj hd]
    exact hsemicolon
  simp only [assignmentNames?, hfirst, Option.bind_eq_bind, Option.bind_some, hmiddle, hspaced,
    hsecond]
  rfl

/-- A printed assignment is read back exactly when its sides are names. -/
theorem ofText_render_iff (target value : String) :
    ofText (assignment target value).render.toList (assignment target value).render.toList =
        .assignment target value ↔
      isName target = true ∧ isName value = true := by
  refine ⟨names_of_ofText_eq, fun ⟨htarget, hvalue⟩ => ?_⟩
  obtain ⟨htarget, hnot⟩ := isName_iff.mp htarget
  obtain ⟨hvalue, hnot'⟩ := isName_iff.mp hvalue
  have hrender : (assignment target value).render.toList =
      target.toList ++ " = ".toList ++ value.toList ++ [';'] := by
    simp [render, String.toList_append]
  have htrim : Text.trim (target.toList ++ " = ".toList ++ value.toList ++ [';']) =
      target.toList ++ " = ".toList ++ value.toList ++ [';'] := by
    have hstart : Text.trimStart (target.toList ++ " = ".toList ++ value.toList ++ [';']) =
        target.toList ++ " = ".toList ++ value.toList ++ [';'] := by
      rw [List.append_assoc, List.append_assoc]
      exact htarget.trimStart_append _
    rw [Text.trim, hstart]
    have hlast : isWhite ';' = false := by decide
    simp [Text.trimEnd, hlast]
  rw [hrender, ofText, htrim, if_pos (beq_self_eq_true _), assignmentNames?_append htarget hvalue]
  simp [hnot, hnot']

end Statement

/-- The assignments of a body that was read have names on both sides. -/
theorem BodyLayout.names_of_read {s : Source} {layout : BodyLayout} {statements : List Statement}
    (h : layout.read s = .ok (.block statements)) {target value : String}
    (hmem : Statement.assignment target value ∈ statements) :
    Statement.isName target = true ∧ Statement.isName value = true := by
  cases layout with
  | expression r =>
    obtain ⟨t, -, ht⟩ := bind_eq_ok_iff.mp h
    cases ht
  | absent => cases h
  | block b =>
    obtain ⟨statements', hread, heq⟩ := bind_eq_ok_iff.mp h
    obtain rfl := Body.block.inj (Except.ok.inj heq)
    obtain ⟨r, -, hr⟩ := exists_of_forall₂_right (mapM_eq_ok_iff.mp hread) hmem
    obtain ⟨t, -, hr⟩ := bind_eq_ok_iff.mp hr
    obtain ⟨masked, -, hr⟩ := bind_eq_ok_iff.mp hr
    exact Statement.names_of_ofText_eq (Except.ok.inj hr)

theorem CallableLayout.body_of_readConstructor {s : Source} {c : CallableLayout}
    {ctor : Constructor} (h : c.readConstructor s = .ok ctor) : c.body.read s = .ok ctor.body := by
  simp only [CallableLayout.readConstructor, bind_eq_ok_iff] at h
  obtain ⟨_, _, name, _, params, _, tail, _, body, hbody, heq⟩ := h
  rw [hbody, ← Except.ok.inj heq]

/-- A constructor that was read comes from a layout of its body. -/
theorem MemberLayout.exists_body_of_read {s : Source} {layout : MemberLayout} {ctor : Constructor}
    (h : layout.read s = .ok (.constructor ctor)) :
    ∃ body : BodyLayout, body.read s = .ok ctor.body := by
  simp only [MemberLayout.read, bind_eq_ok_iff] at h
  obtain ⟨-, -, -, -, h⟩ := h
  split at h
  · obtain ⟨field, -, heq⟩ := bind_eq_ok_iff.mp h
    cases heq
  · obtain ⟨ctor', hctor, heq⟩ := bind_eq_ok_iff.mp h
    obtain rfl := Member.constructor.inj (Except.ok.inj heq)
    exact ⟨_, CallableLayout.body_of_readConstructor hctor⟩
  · obtain ⟨method, -, heq⟩ := bind_eq_ok_iff.mp h
    cases heq
  · obtain ⟨t, -, heq⟩ := bind_eq_ok_iff.mp h
    cases heq

/-- The assignments in the constructors of a class that was read have names on both sides. -/
theorem SourceFile.names_of_mem_classes {text : Text} {file : SourceFile}
    (hfile : SourceFile.parse text = .ok file) {d : ParsedClass} (hd : d ∈ file.classes)
    {ctor : Constructor} (hctor : .constructor ctor ∈ d.node.members)
    {statements : List Statement} (hbody : ctor.body = .block statements) {target value : String}
    (hmem : Statement.assignment target value ∈ statements) :
    Statement.isName target = true ∧ Statement.isName value = true := by
  have hread := (layout_of_mem_classes hfile hd).2
  simp only [ClassLayout.read, bind_eq_ok_iff] at hread
  obtain ⟨_, _, _, _, name, _, typeParams, _, bases, _, members, hmembers, heq⟩ := hread
  rw [← Except.ok.inj heq] at hctor
  obtain ⟨layout, -, hlayout⟩ := exists_of_forall₂_right (mapM_eq_ok_iff.mp hmembers) hctor
  obtain ⟨body, hread⟩ := MemberLayout.exists_body_of_read hlayout
  rw [hbody] at hread
  exact BodyLayout.names_of_read hread hmem

end ClassRefactor
