import ClassRefactor.Splice.Class
import ClassRefactor.Proofs.Dependency.Applicability
import ClassRefactor.Proofs.Splice.Member

/-!
# What the additions of a plan do to the source

Trees are compared member by member. Nothing but the first constructor differs, or nothing at all
and a member is new, so the source changes by a few insertions and is never written anew.
-/

namespace ClassRefactor

theorem appendedTail?_append {α : Type} [BEq α] [ReflBEq α] (old added : List α) :
    appendedTail? old (old ++ added) = some added := by
  simp [appendedTail?]

/-- The replacements for the additions of a plan to a constructor. -/
def ConstructorPlan.replacements (plan : ConstructorPlan) (text : Text) (style : Style)
    (callable : CallableLayout) (block : BlockLayout) : List Replacement :=
  (if plan.parameters.isEmpty then []
    else [callable.appendParameters text style plan.parameters]) ++
  (if plan.assignments.isEmpty then []
    else [block.appendStatements text style plan.assignments])

variable {text : Text} {style : Style}

theorem Constructor.splice?_extend {ctor : Constructor} {statements : List Statement}
    (hbody : ctor.body = .block statements) {callable : CallableLayout} {block : BlockLayout}
    (hblock : callable.body.block? = some block) (plan : ConstructorPlan) :
    ctor.splice? text style (ctor.extend plan) callable =
      some (plan.replacements text style callable block) := by
  have hparams : appendedTail? ctor.parameters (ctor.extend plan).parameters =
      some plan.parameters := appendedTail?_append ..
  have hstatements : appendedTail? ctor.body.statements (ctor.extend plan).body.statements =
      some plan.assignments := by
    simp only [Constructor.extend, hbody, Body.statements]
    exact appendedTail?_append ..
  have hsame : (ctor.name != (ctor.extend plan).name ||
      ctor.modifiers != (ctor.extend plan).modifiers ||
      ctor.initializer != (ctor.extend plan).initializer) = false := by
    simp [Constructor.extend, bne]
  simp only [Constructor.splice?, hparams, hstatements, hsame, Option.bind_eq_bind,
    Option.bind_some]
  simp only [hbody, hblock, ConstructorPlan.replacements]
  cases plan.assignments <;> simp

namespace ParsedClass

/-- Members that are the same need no replacement. -/
theorem spliceMembers_append (text : Text) (style : Style) (members : List Member)
    (layouts : List MemberLayout) (more : List Member) :
    spliceMembers text style members layouts (members ++ more) = [] := by
  induction members generalizing layouts with
  | nil => simp [spliceMembers]
  | cons m members ih =>
    cases layouts with
    | nil => simp [spliceMembers]
    | cons layout layouts => simp [spliceMembers, ih]

/-- If one member differs, the replacements are those for that one. -/
theorem spliceMembers_modify (text : Text) (style : Style) {members : List Member}
    {layouts : List MemberLayout} {index : Nat} {m : Member} {layout : MemberLayout}
    (f : Member → Member) (hm : members[index]? = some m)
    (hlayout : layouts[index]? = some layout) (hne : (m == f m) = false) :
    spliceMembers text style members layouts (members.modify index f) =
      layout.splice text style m (f m) := by
  induction members generalizing layouts index with
  | nil => simp at hm
  | cons first members ih =>
    cases layouts with
    | nil => simp at hlayout
    | cons firstLayout layouts =>
      cases index with
      | zero =>
        have hrest := spliceMembers_append text style members layouts []
        simp only [List.append_nil] at hrest
        simp only [List.getElem?_cons_zero, Option.some.injEq] at hm hlayout
        subst hm hlayout
        simp [spliceMembers, hne, hrest]
      | succ index =>
        simp only [List.getElem?_cons_succ] at hm hlayout
        simp [spliceMembers, ih hm hlayout]

variable {c : ParsedClass} {plan : ConstructorPlan} {new : ClassNode}

theorem headerDiffers_members (node : ClassNode) (members : List Member) :
    headerDiffers node { node with members } = false := by
  simp [headerDiffers, bne]

/-- The replacements for the members that are there. -/
def memberReplacements (c : ParsedClass) (text : Text) (new : ClassNode) : List Replacement :=
  spliceMembers text (c.style text) c.node.members c.layout.members new.members

/-- A change of the head, or fewer members, writes the class anew. -/
theorem splice_of_header (text : Text)
    (h : headerDiffers c.node new = true ∨ new.members.length < c.node.members.length) :
    c.splice text new = [⟨c.layout.range, new.render (c.style text) (c.indent text)⟩] := by
  have hcond : (headerDiffers c.node new ||
      decide (new.members.length < c.node.members.length)) = true := by simpa using h
  simp only [splice, hcond, if_true]

theorem splice_of_members (text : Text) (hheader : headerDiffers c.node new = false)
    (hle : c.node.members.length ≤ new.members.length) :
    c.splice text new = (c.spliceAdded text (c.style text) (c.memberReplacements text new)
      (new.members.drop c.node.members.length)).mergeSort
        fun a b => (a.range.order b.range).isLE := by
  have hnot : ¬ new.members.length < c.node.members.length := by omega
  simp only [splice, hheader, hnot, memberReplacements, decide_false, Bool.or_false,
    Bool.false_eq_true, if_false]

/-- If one member differs and nothing else, the replacements are those for that one. -/
theorem splice_modify (text : Text) {index : Nat} {m : Member} {layout : MemberLayout}
    (f : Member → Member) (hm : c.node.members[index]? = some m)
    (hlayout : c.layout.members[index]? = some layout) (hne : (m == f m) = false) :
    c.splice text { c.node with members := c.node.members.modify index f } =
      (layout.splice text (c.style text) m (f m)).mergeSort
        fun a b => (a.range.order b.range).isLE := by
  rw [splice_of_members text (headerDiffers_members ..) (by simp), memberReplacements,
    spliceMembers_modify text (c.style text) f hm hlayout hne]
  simp [spliceAdded]

/-- A class without a constructor receives one member at its end. -/
theorem splice_fulfil_of_none (c : ParsedClass) (text : Text)
    (hindex : plan.constructorIndex = none) :
    c.splice text (c.node.fulfil plan) =
      [if c.isOneLine text then
          c.expandOneLine text (c.style text) [.constructor (c.node.newConstructor plan)]
        else c.appendMembers text (c.style text) [.constructor (c.node.newConstructor plan)]] := by
  have hnew : c.node.fulfil plan =
      { c.node with members := c.node.members ++ [.constructor (c.node.newConstructor plan)] } := by
    simp [ClassNode.fulfil, hindex]
  rw [hnew, splice_of_members text (headerDiffers_members ..) (by simp), memberReplacements,
    spliceMembers_append, List.drop_left]
  simp only [spliceAdded, List.isEmpty_cons, List.isEmpty_nil, Bool.true_and, Bool.false_eq_true,
    ↓reduceIte, List.nil_append]
  split <;> simp

/-- A class with a constructor has that one extended. -/
theorem splice_fulfil_of_some (text : Text) {index : Nat} {ctor : Constructor} {statements : List Statement}
    {layout : MemberLayout} {callable : CallableLayout} {block : BlockLayout}
    (hindex : plan.constructorIndex = some index) (hplan : plan.nonempty? = some plan)
    (hctor : c.node.members[index]? = some (.constructor ctor))
    (hbody : ctor.body = .block statements) (hlayout : c.layout.members[index]? = some layout)
    (hcallable : layout.shape.callable? = some callable)
    (hblock : callable.body.block? = some block) :
    c.splice text (c.node.fulfil plan) =
      (plan.replacements text (c.style text) callable block).mergeSort
        fun a b => (a.range.order b.range).isLE := by
  have hnew : c.node.fulfil plan =
      { c.node with members := c.node.members.modify index (Member.extend plan) } := by
    simp [ClassNode.fulfil, hindex]
  have hone : layout.splice text (c.style text) (.constructor ctor)
      ((Member.constructor ctor).extend plan) =
      plan.replacements text (c.style text) callable block := by
    simp [MemberLayout.splice, Member.extend, hcallable,
      Constructor.splice?_extend hbody hblock plan]
  rw [hnew, splice_modify text (Member.extend plan) hctor hlayout
    (Constructor.beq_extend hbody hplan), hone]

end ParsedClass

end ClassRefactor
