import ClassRefactor.Method.Mode
import ClassRefactor.Proofs.Exchange.Lead
import ClassRefactor.Proofs.Written.Parameter

/-!
# Printed leads

Modifiers and a well-formed return type are printed in front of a name. What is printed can stand
there: the modifiers and the type are told apart again, and nothing in them decides what kind of
member it is.
-/

namespace ClassRefactor

/-- The cells that are printed in front of a name. -/
def printedLead (modifiers : List String) (type : TypeRef) : Code :=
  (renderModifiers modifiers).toList ++ (Text.cells type.render.toList ++ [' '])

namespace Code

/-- A name is no modifier, whatever follows it. -/
theorem modifiersFrom_nameText {t : Text} (h : NameText t) {c : Char} (hc : isIdentCell c = false)
    (wordStart pos : Nat) (rest : Code) :
    modifiersFrom memberModifiers [] wordStart pos (t.cells ++ c :: rest) = ([], pos) := by
  obtain ⟨d, tail, rfl, hd⟩ := h.head
  have hsplit := List.takeWhile_append_dropWhile (p := isIdentCell) (l := Text.cells (d :: tail))
  have hne : (Text.cells (d :: tail)).takeWhile isIdentCell ≠ [] := by
    obtain ⟨n, hn, -⟩ := Text.exists_cells_cons d tail
    rw [hn, List.takeWhile_cons_of_pos hd]
    simp
  rw [← hsplit, List.append_assoc]
  refine modifiersFrom_unknown (fun e he => List.mem_takeWhile_imp he) hne h.leads
    (fun e he => ?_) wordStart pos
  have hdrop := List.head?_dropWhile_not isIdentCell (Text.cells (d :: tail))
  cases hrest : (Text.cells (d :: tail)).dropWhile isIdentCell with
  | nil =>
    rw [hrest] at he
    obtain rfl := Option.some.inj he
    exact hc
  | cons f rest' =>
    rw [hrest] at he hdrop
    obtain rfl := Option.some.inj he
    simpa using hdrop

theorem deciderFrom_skip (code : Code) (start stop angles pos : Nat) (l r : Code) :
    code.deciderFrom start stop angles l.length pos (l ++ r) =
      code.deciderFrom start stop angles 0 (pos + l.length) r := by
  induction l generalizing pos with
  | nil => rfl
  | cons c l ih =>
    rw [List.length_cons, List.cons_append, deciderFrom, ih]
    congr 1
    omega

/-- A tuple is passed over. -/
theorem deciderFrom_tuple {code inner rest : Code} {start pos : Nat}
    (hcode : code.drop pos = '(' :: (inner ++ ')' :: rest)) (hinner : stackAfter [] inner = some [])
    (hopens : code.opensTuple start pos = true) :
    code.deciderFrom start code.length 0 0 pos ('(' :: (inner ++ ')' :: rest)) =
      code.deciderFrom start code.length 0 0 (pos + inner.length + 2) rest := by
  have hclose : matchingClose? '(' ')' (code.take code.length) pos =
      some (pos + 1 + inner.length) := by
    have hnested : closeFrom '(' ')' 0 (inner ++ ')' :: rest) = some inner.length := by
      have := closeFrom_nested hinner (.inl ⟨rfl, rfl⟩) 0 (')' :: rest)
      simpa [closeFrom] using this
    rw [List.take_length, matchingClose?, hcode]
    simp [hnested]
  have hskip := deciderFrom_skip code start code.length 0 (pos + 1) (inner ++ [')']) rest
  have hlen : pos + 1 + inner.length - pos = (inner ++ [')']).length := by
    rw [List.length_append, List.length_singleton]
    omega
  rw [List.append_assoc] at hskip
  rw [deciderFrom, hopens, hclose]
  simp only [hlen]
  refine hskip.trans ?_
  rw [List.length_append, List.length_singleton]
  congr 1
  omega

end Code

namespace TupleText

variable {t inner suffix : Text} (h : TupleText t inner suffix)
include h

theorem cells_eq : Text.cells t = '(' :: (Text.cells inner ++ ')' :: Text.cells suffix) := by
  rw [h.parts, Text.cells_append]
  rfl

theorem closed_suffix : Code.stackAfter [] suffix = some [] := by
  have hwhole := h.whole.closed
  have hinner : Code.stackAfter [')'] inner = some [')'] := Code.stackAfter_weaken h.closed [')']
  rw [h.parts, List.cons_append, Code.stackAfter_cons rfl, Code.stackAfter_append, hinner] at hwhole
  exact hwhole

end TupleText

namespace TypeRef.WellFormed

variable {t : TypeRef} (h : t.WellFormed)
include h

theorem closed_cells : Code.stackAfter [] (Text.cells t.render.toList) = some [] := by
  rw [Code.stackAfter_cells]
  exact h.typeText.whole.closed

/-- A written type is no modifier. -/
theorem modifiersFrom_cells (wordStart pos : Nat) :
    Code.modifiersFrom memberModifiers [] wordStart pos (Text.cells t.render.toList ++ [' ']) =
      ([], pos) := by
  cases h with
  | named hname =>
    rw [render_bare]
    exact Code.modifiersFrom_nameText hname (by decide) wordStart pos []
  | tuple htuple =>
    rw [render_bare, htuple.parts]
    rfl
  | @generic name suffix args hname hlast hargs hall hsuffix =>
    cases args with
    | nil => exact absurd rfl hargs
    | cons a as =>
      rw [render_generic, Text.cells_append, List.append_assoc]
      exact Code.modifiersFrom_nameText hname (by decide) wordStart pos _

/-- A tuple in the front, or nothing decides the kind of a member. -/
theorem tuple_or_passAfter : (∃ (name : String) (inner suffix : Text), t = ⟨name, [], ""⟩ ∧
      TupleText name.toList inner suffix) ∨
    Code.passAfter 0 (Text.cells t.render.toList) = some 0 := by
  have hsimple : ∀ {u : Text}, TypeText u → '(' ∉ u →
      Code.passAfter 0 (Text.cells u) = some 0 := fun hu hparen =>
    Code.passAfter_closed (by rw [Code.stackAfter_cells]; exact hu.whole.closed)
      (by rwa [Text.mem_cells])
  cases h with
  | named hname =>
    rw [render_bare]
    exact .inr (hsimple hname.toTypeText hname.simple.2)
  | @tuple name inner suffix htuple => exact .inl ⟨name, inner, suffix, rfl, htuple⟩
  | @generic name suffix args hname hlast hargs hall hsuffix =>
    right
    cases args with
    | nil => exact absurd rfl hargs
    | cons a as =>
      have hwholes : ∀ l ∈ as.map fun b => ' ' :: b.render.toList, Code.Whole l := by
        intro l hl
        obtain ⟨b, hb, rfl⟩ := List.mem_map.mp hl
        exact (hall b (List.mem_cons_of_mem _ hb)).typeText.whole.space
      have hinner : Code.stackAfter [] (Text.cells (a.render.toList ++
          (as.map fun b => ' ' :: b.render.toList).flatMap (',' :: ·))) = some [] := by
        rw [Code.stackAfter_cells, Code.stackAfter_append,
          (hall a List.mem_cons_self).typeText.whole.closed, Option.bind_some,
          Code.stackAfter_commas hwholes]
      have hpass : Code.passAfter (1 + Code.openAngles []) _ = some (1 + Code.openAngles []) :=
        Code.passAfter_nested hinner (.inl Nat.one_pos)
      rw [render_generic, Text.cells_append, Code.passAfter_append,
        hsimple hname.toTypeText hname.simple.2, Option.bind_some]
      generalize a.render.toList ++ (as.map fun b => ' ' :: b.render.toList).flatMap (',' :: ·) = i
        at *
      have hcells : Text.cells ('<' :: (i ++ '>' :: suffix.toList)) =
          '<' :: (Text.cells i ++ '>' :: Text.cells suffix.toList) := by
        rw [Text.cells_cons, Text.cells_append, Text.cells_cons]
        rfl
      rw [hcells, ← List.singleton_append, Code.passAfter_append]
      rw [show Code.passAfter 0 ['<'] = some 1 from rfl, Option.bind_some, Code.passAfter_append]
      rw [show (1 : Nat) = 1 + Code.openAngles [] from rfl, hpass, Option.bind_some]
      exact hsimple hsuffix.toTypeText hsuffix.simple

end TypeRef.WellFormed

/-! Modifiers and a type, printed. -/

section

variable {ms : List String} (hms : ∀ m ∈ ms, m ∈ memberModifiers) {t : TypeRef}
  (ht : t.WellFormed)
include hms ht

theorem modifiersFrom_printedLead (wordStart pos : Nat) :
    Code.modifiersFrom memberModifiers [] wordStart pos (printedLead ms t) =
      (ms, pos + (renderModifiers ms).toList.length) :=
  Code.known_memberModifiers.modifiersFrom hms ht.modifiersFrom_cells wordStart pos

theorem head_printedLead : ∃ c, (printedLead ms t).head? = some c ∧
    (isIdentCell c = true ∨ c = '(') := by
  cases ms with
  | nil =>
    obtain ⟨c, rest, hc, -, hhead⟩ := ht.head
    obtain ⟨n, hn, -⟩ := Text.exists_cells_cons c rest
    refine ⟨c, ?_, hhead⟩
    rw [printedLead, hc, hn]
    rfl
  | cons m ms =>
    obtain ⟨hne, hident⟩ := Code.known_memberModifiers.ident m (hms m List.mem_cons_self)
    refine ⟨m.toList.head hne, ?_, .inl (hident _ (List.head_mem hne))⟩
    rw [printedLead, Code.renderModifiers_cons, List.append_assoc, List.head?_append,
      List.head?_eq_some_head hne]
    rfl

theorem lead_printedLead : Code.Lead (printedLead ms t) where
  closed := by
    rw [printedLead, Code.stackAfter_append,
      Code.stackAfter_of_isInert (Code.known_memberModifiers.isInert hms), Option.bind_some,
      Code.stackAfter_append, ht.closed_cells]
    rfl
  undeclared := by
    refine Code.known_memberModifiers.undeclared hms (by decide) ?_
    exact ht.typeText.undeclared.split (by decide) Code.undeclared_nil
  head := by
    obtain ⟨c, hc, hhead⟩ := head_printedLead hms ht
    refine ⟨c, hc, ?_⟩
    rcases hhead with hident | rfl
    · refine ⟨isLayoutBlank_eq_false_of_isIdentCell hident, ?_, ?_⟩ <;> rintro rfl <;>
        exact absurd hident (by decide)
    · decide
  last := by
    intro c hc
    rw [printedLead, ← List.append_assoc, List.getLast?_append] at hc
    obtain rfl := Option.some.inj hc
    decide

omit ht in
/-- A parenthesis right after modifiers opens a tuple. -/
theorem opensTuple_renderModifiers :
    Code.opensTuple (renderModifiers ms).toList 0 (renderModifiers ms).toList.length = true := by
  have hword : ∀ m ∈ memberModifiers,
      Code.opensTuple (m.toList ++ [' ']) 0 (m.toList ++ [' ']).length = true := by decide
  have hsolid : ∀ m ∈ memberModifiers, ∃ c ∈ m.toList ++ [' '], isLayoutBlank c = false := by
    decide
  rcases List.eq_nil_or_concat ms with rfl | ⟨init, m, rfl⟩
  · rfl
  · have hm := hms m (by simp)
    have hsplit : (renderModifiers (init ++ [m])).toList =
        (renderModifiers init).toList ++ (m.toList ++ [' ']) := by
      rw [Code.renderModifiers_append, Code.renderModifiers_cons]
      rfl
    have hlast : ∀ c, (renderModifiers init).toList.getLast? = some c → isIdentCell c = false := by
      intro c hc
      obtain rfl := Code.last_renderModifiers hc
      decide
    have hwindow : Code.window (m.toList ++ [' ']) 0 (m.toList ++ [' ']).length =
        m.toList ++ [' '] := by
      rw [Code.window_zero, List.take_length]
    rw [List.concat_eq_append, hsplit, List.length_append,
      Code.opensTuple_append (Nat.zero_le _) hlast (Nat.le_refl _)
        (by rw [hwindow]; exact hsolid m hm)]
    exact hword m hm

/-- Nothing in a printed lead decides what kind of member it belongs to. -/
theorem deciderFrom_printedLead (u y : Code) :
    (u ++ printedLead ms t ++ y).deciderFrom u.length (u ++ printedLead ms t ++ y).length 0 0
        u.length (printedLead ms t ++ y) =
      (u ++ printedLead ms t ++ y).deciderFrom u.length (u ++ printedLead ms t ++ y).length 0 0
        (u ++ printedLead ms t).length y := by
  have hmods : Code.passAfter 0 (renderModifiers ms).toList = some 0 :=
    Code.passAfter_of_isInert (Code.known_memberModifiers.isInert hms) 0
  rcases ht.tuple_or_passAfter with ⟨name, inner, suffix, rfl, htuple⟩ | hpass
  · -- The modifiers, the tuple with its parentheses, and its marks are passed over one by one.
    have hmarks : Code.passAfter 0 (Text.cells suffix ++ [' ']) = some 0 := by
      rw [Code.passAfter_append, Code.passAfter_closed
        (by rw [Code.stackAfter_cells]; exact htuple.closed_suffix)
        (by rw [Text.mem_cells]; exact htuple.simple)]
      rfl
    have hlead : printedLead ms ⟨name, [], ""⟩ = (renderModifiers ms).toList ++
        '(' :: (Text.cells inner ++ ')' :: (Text.cells suffix ++ [' '])) := by
      rw [printedLead, TypeRef.render_bare, htuple.cells_eq, List.cons_append, List.append_assoc]
      rfl
    generalize hcode : u ++ printedLead ms ⟨name, [], ""⟩ ++ y = code
    have hshows : code.Shows u.length (renderModifiers ms).toList := by
      rw [← hcode, hlead, ← List.append_assoc, List.append_assoc]
      exact Code.shows_append ..
    have hopens : code.opensTuple u.length (u.length + (renderModifiers ms).toList.length) = true :=
      (hshows.opensTuple (Nat.zero_le _) (Nat.le_refl _)).trans (opensTuple_renderModifiers hms)
    have hdrop : code.drop (u.length + (renderModifiers ms).toList.length) =
        '(' :: (Text.cells inner ++ ')' :: (Text.cells suffix ++ [' '] ++ y)) := by
      rw [← hcode, hlead, ← List.append_assoc, List.append_assoc, ← List.length_append,
        List.drop_left]
      simp
    have hclosed : Code.stackAfter [] (Text.cells inner) = some [] := by
      rw [Code.stackAfter_cells]
      exact htuple.closed
    rw [hlead, List.append_assoc, Code.deciderFrom_pass hmods, List.cons_append, List.append_assoc,
      List.cons_append, Code.deciderFrom_tuple hdrop hclosed hopens, Code.deciderFrom_pass hmarks]
    congr 1
    simp only [List.length_append, List.length_cons]
    omega
  · have hlead : Code.passAfter 0 (printedLead ms t) = some 0 := by
      rw [printedLead, Code.passAfter_append, hmods, Option.bind_some, Code.passAfter_append,
        hpass]
      rfl
    rw [Code.deciderFrom_pass hlead, ← List.length_append]

end

/-! Conversions keep leads printable. -/

theorem wellFormed_void : TypeRef.WellFormed .void :=
  .named (PlainName.nameText (s := "void") (by decide))

namespace Method

variable {m : Method}

/-- Wrapping and unwrapping keep a type well formed. -/
theorem wellFormed_convert (h : m.returnType.WellFormed) (target : MethodMode) :
    (m.convert false target).returnType.WellFormed := by
  have htask : NameText "Task".toList := PlainName.nameText (by decide)
  cases target with
  | sync =>
    simp only [convert, Bool.false_eq_true, ↓reduceIte, toSync]
    split
    · cases hargs : m.returnType.args with
      | nil => exact wellFormed_void
      | cons inner rest =>
        cases rest with
        | cons other rest => exact h
        | nil =>
          generalize m.returnType = t at *
          cases h with
          | named => cases hargs
          | tuple => cases hargs
          | generic hname hlast hne hall hsuffix =>
            simp only at hargs
            exact hall inner (by simp [hargs])
    · exact h
  | async =>
    simp only [convert, Bool.false_eq_true, ↓reduceIte, toAsync]
    split
    · exact h
    · simp only
      split
      · exact .named htask
      · refine .generic htask ⟨'k', rfl, rfl⟩ (by simp) (by simpa using h) ?_
        exact ⟨⟨by simp, ⟨rfl, rfl⟩, Code.undeclared_nil⟩, by simp, rfl⟩

/-- The only new modifier is one of a member. -/
theorem modifiers_convert (h : ∀ w ∈ m.modifiers, w ∈ memberModifiers) (target : MethodMode) :
    ∀ w ∈ (m.convert false target).modifiers, w ∈ memberModifiers := by
  intro w hw
  cases target with
  | sync => exact h w (List.mem_filter.mp hw).1
  | async =>
    simp only [convert, Bool.false_eq_true, ↓reduceIte, toAsync] at hw
    split at hw
    · exact h w hw
    · rcases List.mem_append.mp hw with hw | hw
      · exact h w hw
      · rw [List.mem_singleton.mp hw]
        decide

end Method

end ClassRefactor
