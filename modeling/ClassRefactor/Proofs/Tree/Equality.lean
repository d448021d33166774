import ClassRefactor.Tree.Class

/-!
# Comparison of trees

The comparison of trees ignores white space, so it is coarser than equality. It still finds every
tree equal to itself, and tells apart lists of different lengths.
-/

namespace ClassRefactor

instance : ReflBEq OpaqueText where
  rfl {a} := show (a.words == a.words) = true by simp

instance : ReflBEq Parameter where
  rfl {a} := show instBEqParameter.beq a a = true by
    cases a
    simp [instBEqParameter.beq]

instance : ReflBEq Statement where
  rfl {a} := show instBEqStatement.beq a a = true by
    cases a <;> simp [instBEqStatement.beq]

instance : ReflBEq Body where
  rfl {a} := show instBEqBody.beq a a = true by
    cases a <;> simp [instBEqBody.beq]

instance : ReflBEq FieldVariable where
  rfl {a} := show instBEqFieldVariable.beq a a = true by
    cases a
    simp [instBEqFieldVariable.beq]

instance : ReflBEq Field where
  rfl {a} := show instBEqField.beq a a = true by
    cases a
    simp [instBEqField.beq]

instance : ReflBEq Constructor where
  rfl {a} := show instBEqConstructor.beq a a = true by
    cases a
    simp [instBEqConstructor.beq]

instance : ReflBEq Method where
  rfl {a} := show instBEqMethod.beq a a = true by
    cases a
    simp [instBEqMethod.beq]

instance : ReflBEq Member where
  rfl {a} := show instBEqMember.beq a a = true by
    cases a <;> simp [instBEqMember.beq]

instance : ReflBEq ClassNode where
  rfl {a} := show instBEqClassNode.beq a a = true by
    cases a
    simp [instBEqClassNode.beq]

/-- Constructors that compare equal have as many parameters and statements. -/
theorem Constructor.lengths_eq_of_beq {a b : Constructor} {ss ts : List Statement}
    (h : (Member.constructor a == .constructor b) = true) (ha : a.body = .block ss)
    (hb : b.body = .block ts) :
    a.parameters.length = b.parameters.length ∧ ss.length = ts.length := by
  have h : instBEqConstructor.beq a b = true := h
  obtain ⟨name, modifiers, parameters, initializer, body⟩ := a
  obtain ⟨name', modifiers', parameters', initializer', body'⟩ := b
  simp only at ha hb
  subst ha hb
  simp only [instBEqConstructor.beq, Bool.and_eq_true] at h
  have hbody : instBEqBody.beq (.block ss) (.block ts) = true := h.2.2.2.2
  simp only [instBEqBody.beq] at hbody
  exact ⟨List.length_eq_of_beq h.2.2.1, List.length_eq_of_beq hbody⟩

/-- Methods that compare equal have the same modifiers, word for word. -/
theorem Method.modifiers_eq_of_beq {a b : Method}
    (h : (Member.method a == .method b) = true) : a.modifiers = b.modifiers := by
  have h : instBEqMethod.beq a b = true := h
  cases a
  cases b
  simp only [instBEqMethod.beq, Bool.and_eq_true] at h
  exact eq_of_beq h.2.2.1

theorem exists_beq_of_mem {α : Type} [BEq α] {as bs : List α} (h : (as == bs) = true) {b : α}
    (hb : b ∈ bs) : ∃ a ∈ as, (a == b) = true := by
  induction as generalizing bs with
  | nil =>
    cases bs with
    | nil => cases hb
    | cons b' bs => cases h
  | cons a as ih =>
    cases bs with
    | nil => cases hb
    | cons b' bs =>
      obtain ⟨hhead, htail⟩ : (a == b') = true ∧ (as == bs) = true := by
        rw [List.cons_beq_cons, Bool.and_eq_true] at h
        exact h
      rcases List.mem_cons.mp hb with rfl | hb
      · exact ⟨a, List.mem_cons_self, hhead⟩
      · obtain ⟨a', ha', heq⟩ := ih htail hb
        exact ⟨a', List.mem_cons_of_mem _ ha', heq⟩

theorem Statement.eq_assignment_of_beq {s : Statement} {target value : String}
    (h : (s == .assignment target value) = true) : s = .assignment target value := by
  have h : instBEqStatement.beq s (.assignment target value) = true := h
  cases s with
  | assignment target' value' =>
    simp only [instBEqStatement.beq, Bool.and_eq_true, beq_iff_eq] at h
    rw [h.1, h.2]
  | other text => cases h

/-- Classes that compare equal make the same assignments in their constructors. -/
theorem ClassNode.exists_assignment_of_beq {a b : ClassNode} (h : (a == b) = true)
    {ctor : Constructor} {ss : List Statement} {target value : String}
    (hctor : .constructor ctor ∈ b.members) (hbody : ctor.body = .block ss)
    (hmem : Statement.assignment target value ∈ ss) :
    ∃ ctor' ss', .constructor ctor' ∈ a.members ∧ ctor'.body = .block ss' ∧
      Statement.assignment target value ∈ ss' := by
  have h : instBEqClassNode.beq a b = true := h
  obtain ⟨name, typeParams, modifiers, bases, members⟩ := a
  obtain ⟨name', typeParams', modifiers', bases', members'⟩ := b
  simp only [instBEqClassNode.beq, Bool.and_eq_true] at h
  obtain ⟨m, hm, hbeq⟩ := exists_beq_of_mem h.2.2.2.2 hctor
  cases m with
  | field f => cases hbeq
  | method k => cases hbeq
  | other o => cases hbeq
  | constructor ctor' =>
    have hbeq : instBEqConstructor.beq ctor' ctor = true := hbeq
    obtain ⟨n, ms, ps, i, body⟩ := ctor'
    obtain ⟨n', ms', ps', i', body'⟩ := ctor
    simp only at hbody
    subst hbody
    simp only [instBEqConstructor.beq, Bool.and_eq_true] at hbeq
    have hbodies : instBEqBody.beq body (.block ss) = true := hbeq.2.2.2.2
    cases body with
    | expression e => cases hbodies
    | absent => cases hbodies
    | block ss' =>
      simp only [instBEqBody.beq] at hbodies
      obtain ⟨s, hs, hbeq⟩ := exists_beq_of_mem hbodies hmem
      rw [Statement.eq_assignment_of_beq hbeq] at hs
      exact ⟨_, ss', hm, rfl, hs⟩

end ClassRefactor
