import ClassRefactor.Proofs.Source.File
import ClassRefactor.Proofs.Splice.Class
import ClassRefactor.Proofs.Tree.Equality

/-!
# Which differences splicing sees

Splicing a class answers with no replacement when it sees no difference. It sees all differences but
one: of the body of a constructor it looks at the statements only, so that a body after an arrow, a
missing body and an empty block are all the same to it.
-/

namespace ClassRefactor

/-- A constructor whose body is reduced to the statements in it. -/
def Constructor.flat (c : Constructor) : Constructor := { c with body := .block c.body.statements }

def Member.flat : Member → Member
  | .constructor c => .constructor c.flat
  | m => m

/-- A class without the form of its constructor bodies. -/
def ClassNode.flat (c : ClassNode) : ClassNode := { c with members := c.members.map Member.flat }

/-- A class in which every constructor has a block. -/
def ClassNode.BlockBodied (c : ClassNode) : Prop :=
  ∀ k, .constructor k ∈ c.members → k.body.block?.isSome = true

section Comparison

/-! The comparison of lists and of the parts of a constructor. -/

theorem list_beq_comm {α : Type} [BEq α] (h : ∀ a b : α, (a == b) = (b == a))
    (as bs : List α) : (as == bs) = (bs == as) := by
  induction as generalizing bs with
  | nil => cases bs <;> rfl
  | cons a as ih =>
    cases bs with
    | nil => rfl
    | cons b bs => rw [List.cons_beq_cons, List.cons_beq_cons, h a b, ih bs]

theorem OpaqueText.beq_comm (a b : OpaqueText) : (a == b) = (b == a) :=
  BEq.comm (α := List Text)

theorem Parameter.beq_eq (a b : Parameter) : (a == b) =
    (a.modifiers == b.modifiers && (a.type == b.type && (a.name == b.name &&
      a.default == b.default))) := by
  cases a
  cases b
  rfl

theorem Parameter.beq_comm (a b : Parameter) : (a == b) = (b == a) := by
  have hdefault : (a.default == b.default) = (b.default == a.default) := by
    cases a.default <;> cases b.default <;> first | rfl | exact OpaqueText.beq_comm ..
  rw [beq_eq, beq_eq, BEq.comm (a := a.modifiers), BEq.comm (a := a.type), BEq.comm (a := a.name),
    hdefault]

theorem Statement.beq_comm (a b : Statement) : (a == b) = (b == a) := by
  cases a with
  | assignment target value =>
    cases b with
    | assignment target' value' =>
      show (target == target' && value == value') = (target' == target && value' == value)
      rw [BEq.comm (a := target), BEq.comm (a := value)]
    | other text => rfl
  | other text =>
    cases b with
    | assignment target' value' => rfl
    | other text' => exact OpaqueText.beq_comm text text'

theorem Constructor.beq_eq (a b : Constructor) : (a == b) =
    (a.name == b.name && (a.modifiers == b.modifiers && (a.parameters == b.parameters &&
      (a.initializer == b.initializer && a.body == b.body)))) := by
  cases a
  cases b
  rfl

/-- Bodies that compare equal hold statements that compare equal. -/
theorem Body.statements_beq {a b : Body} (h : (a == b) = true) :
    (a.statements == b.statements) = true := by
  cases a <;> cases b <;> first | exact h | rfl | cases h

theorem Constructor.flat_beq {a b : Constructor} (h : (a == b) = true) :
    (a.flat == b.flat) = true := by
  rw [beq_eq] at h ⊢
  simp only [Bool.and_eq_true] at h ⊢
  exact ⟨h.1, h.2.1, h.2.2.1, h.2.2.2.1, Body.statements_beq h.2.2.2.2⟩

/-- In blocks there is nothing but the statements. -/
theorem Constructor.flat_eq_self {c : Constructor} (h : c.body.block?.isSome = true) :
    c.flat = c := by
  obtain ⟨name, modifiers, parameters, initializer, body⟩ := c
  cases body with
  | block statements => rfl
  | expression e => cases h
  | absent => cases h

theorem ClassNode.flat_eq_self {c : ClassNode} (h : c.BlockBodied) : c.flat = c := by
  have hmember : ∀ m ∈ c.members, m.flat = m := by
    intro m hm
    cases m with
    | constructor k => exact congrArg Member.constructor (Constructor.flat_eq_self (h k hm))
    | field f => rfl
    | method k => rfl
    | other o => rfl
  have hmembers : c.members.map Member.flat = c.members :=
    (List.map_congr_left hmember).trans (List.map_id c.members)
  rw [flat, hmembers]

/-- A list that begins with another and goes on with nothing is that list. -/
theorem appendedTail?_eq_some_nil_iff {α : Type} [BEq α]
    (h : ∀ a b : α, (a == b) = (b == a)) (old new : List α) :
    appendedTail? old new = some [] ↔ (old == new) = true := by
  unfold appendedTail?
  constructor
  · intro hsome
    split at hsome
    · rename_i hprefix
      simp only [Bool.and_eq_true, decide_eq_true_eq] at hprefix
      have hlen : new.length ≤ old.length := by
        simpa using Option.some.inj hsome
      rw [list_beq_comm h, ← List.take_of_length_le hlen]
      exact hprefix.2
    · cases hsome
  · intro heq
    have hlen := List.length_eq_of_beq heq
    rw [list_beq_comm h] at heq
    simp [hlen, heq]

end Comparison

variable {text : Text} {style : Style}

/-- A constructor is spliced without a replacement exactly if it differs in the form of its body at
most. -/
theorem Constructor.splice?_eq_some_nil_iff (text : Text) (style : Style) (old new : Constructor)
    (callable : CallableLayout) :
    old.splice? text style new callable = some [] ↔ (old.flat == new.flat) = true := by
  have hparams := appendedTail?_eq_some_nil_iff Parameter.beq_comm old.parameters new.parameters
  have hstatements := appendedTail?_eq_some_nil_iff Statement.beq_comm old.body.statements
    new.body.statements
  have hflat : (old.flat == new.flat) = (old.name == new.name && (old.modifiers == new.modifiers &&
      (old.parameters == new.parameters && (old.initializer == new.initializer &&
        old.body.statements == new.body.statements)))) := Constructor.beq_eq _ _
  rw [hflat]
  simp only [Bool.and_eq_true, ← hparams, ← hstatements]
  constructor
  · intro h
    obtain ⟨params, hp, h⟩ := Option.bind_eq_some_iff.mp h
    obtain ⟨statements, hs, h⟩ := Option.bind_eq_some_iff.mp h
    simp only at h
    split at h
    · cases h
    · rename_i hsame
      simp only [bne, Bool.or_eq_true, Bool.not_eq_true', not_or, Bool.not_eq_false] at hsame
      obtain ⟨⟨hname, hmodifiers⟩, hinit⟩ := hsame
      have hnone : params = [] ∧ statements = [] := by
        cases params <;> cases statements <;> simp at h ⊢ <;> split at h <;> simp at h
      rw [hnone.1] at hp
      rw [hnone.2] at hs
      exact ⟨hname, hmodifiers, hp, hinit, hs⟩
  · rintro ⟨hname, hmodifiers, hp, hinit, hs⟩
    simp [splice?, hp, hs, hname, hmodifiers, hinit, bne]

/-- A method that is spliced at all is given a replacement. -/
theorem Method.splice?_ne_some_nil {old new : Method} {callable : CallableLayout} :
    old.splice? new callable ≠ some [] := by
  unfold splice?
  split <;> simp

/-- Members of which at most one is a constructor are as good as their flat forms. -/
theorem Member.flat_beq_of_not_constructor {old new : Member}
    (h : ¬ ∃ k k', old = .constructor k ∧ new = .constructor k') :
    (old.flat == new.flat) = (old == new) := by
  cases old with
  | constructor k =>
    cases new with
    | constructor k' => exact absurd ⟨k, k', rfl, rfl⟩ h
    | field f => rfl
    | method m => rfl
    | other o => rfl
  | field f => cases new <;> rfl
  | method m => cases new <;> rfl
  | other o => cases new <;> rfl

/-- A member is left alone exactly if it is the same up to the form of a constructor body. -/
theorem MemberLayout.splice_eq_nil_iff_flat {layout : MemberLayout} {old new : Member}
    (hmirrors : layout.Mirrors old) :
    (if old == new then [] else layout.splice text style old new) = [] ↔
      (old.flat == new.flat) = true := by
  by_cases hctors : ∃ k k', old = .constructor k ∧ new = .constructor k'
  · obtain ⟨k, k', rfl, rfl⟩ := hctors
    obtain ⟨callable, hcallable⟩ : ∃ callable, layout.shape.callable? = some callable := by
      cases hcallable : layout.shape.callable? with
      | some callable => exact ⟨callable, rfl⟩
      | none =>
        rw [Mirrors, hcallable] at hmirrors
        cases hmirrors
    have hflat : ((Member.constructor k).flat == (Member.constructor k').flat) =
        (k.flat == k'.flat) := rfl
    rw [hflat]
    split
    · rename_i heq
      simpa using Constructor.flat_beq heq
    · rw [← Constructor.splice?_eq_some_nil_iff text style k k' callable]
      simp only [splice, hcallable]
      cases k.splice? text style k' callable <;> simp
  · rw [Member.flat_beq_of_not_constructor hctors]
    split
    · rename_i heq
      simpa using heq
    · rename_i hne
      refine iff_of_false ?_ hne
      unfold splice
      simp only
      split
      · rename_i k k' _ _
        exact absurd ⟨k, k', rfl, rfl⟩ hctors
      · rename_i m m' callable _
        cases hspliced : m.splice? m' callable with
        | none => simp
        | some edits =>
          rintro rfl
          exact Method.splice?_ne_some_nil hspliced
      · simp

/-- Flat classes compare equal if the headers and the flat members do. -/
theorem ClassNode.flat_beq_eq (old new : ClassNode) : (old.flat == new.flat) =
    (!ParsedClass.headerDiffers old new &&
      old.members.map Member.flat == new.members.map Member.flat) := by
  have h : (old.flat == new.flat) = (old.name == new.name && (old.typeParams == new.typeParams &&
      (old.modifiers == new.modifiers && (old.bases == new.bases &&
        old.members.map Member.flat == new.members.map Member.flat)))) := by
    cases old
    cases new
    rfl
  rw [h, ParsedClass.headerDiffers]
  simp only [bne, Bool.not_or, Bool.not_not, Bool.and_assoc]

namespace ParsedClass

/-- The induction is on the members that are there; the new class has at least as many. -/
theorem spliceMembers_eq_nil_iff {olds : List Member} {layouts : List MemberLayout}
    (hmirrors : List.Forall₂ MemberLayout.Mirrors layouts olds) {news : List Member}
    (hlen : olds.length ≤ news.length) :
    spliceMembers text style olds layouts news = [] ↔
      (olds.map Member.flat == (news.take olds.length).map Member.flat) = true := by
  induction hmirrors generalizing news with
  | nil => simp [spliceMembers]
  | cons hmirrors _ ih =>
    cases news with
    | nil => simp at hlen
    | cons new news =>
      simp only [List.length_cons, Nat.add_le_add_iff_right] at hlen
      rw [spliceMembers, List.append_eq_nil_iff, MemberLayout.splice_eq_nil_iff_flat hmirrors, ih hlen]
      simp

theorem spliceAdded_eq_nil_iff {c : ParsedClass} {edits : List Replacement}
    {added : List Member} :
    c.spliceAdded text style edits added = [] ↔ edits = [] ∧ added = [] := by
  unfold spliceAdded
  split
  · rename_i hadded
    simp [List.isEmpty_iff.mp hadded]
  · rename_i hadded
    rw [List.isEmpty_iff] at hadded
    split <;> simp [hadded]

theorem splice_eq_nil_iff_flat {c : ParsedClass}
    (hmirrors : List.Forall₂ MemberLayout.Mirrors c.layout.members c.node.members)
    (new : ClassNode) : c.splice text new = [] ↔ (c.node.flat == new.flat) = true := by
  rw [ClassNode.flat_beq_eq]
  by_cases hwhole : headerDiffers c.node new = true ∨ new.members.length < c.node.members.length
  · rw [splice_of_header text hwhole]
    refine iff_of_false (by simp) fun hflat => ?_
    simp only [Bool.and_eq_true, Bool.not_eq_true'] at hflat
    obtain ⟨hheader, hmembers⟩ := hflat
    have hlen := List.length_eq_of_beq hmembers
    simp only [List.length_map] at hlen
    simp [hheader, hlen] at hwhole
  · simp only [not_or, Bool.not_eq_true, Nat.not_lt] at hwhole
    obtain ⟨hheader, hlen⟩ := hwhole
    rw [splice_of_members text hheader hlen, memberReplacements, ← List.length_eq_zero_iff,
      List.length_mergeSort, List.length_eq_zero_iff, spliceAdded_eq_nil_iff,
      spliceMembers_eq_nil_iff hmirrors hlen, List.drop_eq_nil_iff, hheader, Bool.not_false,
      Bool.true_and]
    constructor
    · rintro ⟨hmembers, hle⟩
      rwa [List.take_of_length_le hle] at hmembers
    · intro hmembers
      have hle : new.members.length ≤ c.node.members.length := by
        have := List.length_eq_of_beq hmembers
        simp only [List.length_map] at this
        omega
      exact ⟨by rwa [List.take_of_length_le hle], hle⟩

/-- Splicing answers with no replacement exactly when the new class is the class in the source up to
the form of constructor bodies. If all constructors have blocks, that is when the two are equal. -/
theorem splice_eq_nil_iff (text : Text) :
    ∃ file, SourceFile.parse text = .ok file ∧ ∀ c ∈ file.classes, ∀ new : ClassNode,
      (c.splice text new = [] ↔ (c.node.flat == new.flat) = true) ∧
      (c.node.BlockBodied → new.BlockBodied →
        (c.splice text new = [] ↔ (c.node == new) = true)) := by
  obtain ⟨file, hfile⟩ := SourceFile.exists_parse text
  refine ⟨file, hfile, fun c hc new => ?_⟩
  have hsees : c.splice text new = [] ↔ (c.node.flat == new.flat) = true :=
    splice_eq_nil_iff_flat (SourceFile.mirrors_of_mem_classes hfile hc) new
  refine ⟨hsees, fun hold hnew => ?_⟩
  rw [hsees, ClassNode.flat_eq_self hold, ClassNode.flat_eq_self hnew]

/-- A constructor with an expression after an arrow. -/
def arrowText : Text := "class C \x7b C() => a(); \x7d".toList

/-- The same constructor with another expression. -/
def otherArrowText : Text := "class C \x7b C() => b(); \x7d".toList

/-- A new expression after the arrow of a constructor goes unseen. -/
theorem splice_misses_arrow_body :
    ∃ (file file' : SourceFile) (c c' : ParsedClass),
      SourceFile.parse arrowText = .ok file ∧ file.classes.head? = some c ∧
      SourceFile.parse otherArrowText = .ok file' ∧ file'.classes.head? = some c' ∧
      c.splice arrowText c'.node = [] ∧ (c.node == c'.node) = false := by
  have hrun : (SourceFile.parse arrowText).toOption.bind (fun f => f.classes.head?.bind fun c =>
      (SourceFile.parse otherArrowText).toOption.bind fun f' => f'.classes.head?.map fun c' =>
        (c.splice arrowText c'.node, c.node == c'.node)) = some ([], false) := by
    decide +kernel
  simp only [Option.bind_eq_some_iff, Option.map_eq_some_iff, toOption_eq_some_iff] at hrun
  obtain ⟨file, hfile, c, hc, file', hfile', c', hc', heq⟩ := hrun
  obtain ⟨hnone, hdiffer⟩ := Prod.mk.inj heq
  exact ⟨file, file', c, c', hfile, hc, hfile', hc', hnone, hdiffer⟩

end ParsedClass

end ClassRefactor
