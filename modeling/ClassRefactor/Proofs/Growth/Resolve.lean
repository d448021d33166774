import ClassRefactor.Proofs.Action.Resolve
import ClassRefactor.Proofs.Growth.Completion
import ClassRefactor.Proofs.Reflow.Expand

/-!
# A completed constructor is read back

A class without a constructor is given one that is read as what it was written for, and a
constructor that lacks parameters or statements is read with them. What is written has to
be legible, and nothing may be open where it goes: no member of the class, no bracket among the
parameters, and no statement of the block.
-/

namespace ClassRefactor

/-- A dependency whose type is well-formed and does not begin with a modifier, and whose field and
parameter have names. -/
structure Candidate.Legible (d : Candidate) : Prop where
  type : d.fieldType.WellFormed
  leads : Code.known? parameterModifiers
    ((Text.cells d.fieldType.render.toList).takeWhile isIdentCell) = none
  field : Statement.isName d.fieldName = true
  parameter : Statement.isName d.parameterName = true

/-- A plan for legible dependencies is legible. -/
theorem ConstructorPlan.legible_of_candidates {c : ClassNode} {plan : ConstructorPlan}
    (h : c.plan? = some plan) (hc : ∀ d ∈ c.candidates, d.Legible) : plan.Legible := by
  have hmissing : ∀ existing assigned, ConstructorPlan.Legible
      ⟨plan.constructorIndex, missingParameters existing c.candidates,
        missingAssignments assigned c.candidates⟩ := by
    intro existing assigned
    refine ⟨fun p hp => ?_, fun s hs => ?_⟩
    · obtain ⟨d, hd, rfl⟩ := List.mem_map.mp hp
      have hlegible := hc d (List.mem_filter.mp hd).1
      obtain ⟨hne, hident⟩ := (Statement.isName_iff.mp hlegible.parameter).1.ident
      exact ⟨rfl, rfl, hlegible.type, hlegible.leads, hne, hident⟩
    · obtain ⟨d, hd, rfl⟩ := List.mem_map.mp hs
      have hlegible := hc d (List.mem_filter.mp hd).1
      exact .assignment hlegible.field hlegible.parameter
  rcases ClassNode.plan?_cases h with ⟨-, rfl⟩ | ⟨_, _, _, -, -, rfl⟩
  · exact hmissing ..
  · exact hmissing ..

namespace SourceFile

variable {text : Text} {file : SourceFile} {c : ParsedClass}

/-- The name of a class is a word. -/
theorem name_of_mem_classes (hfile : parse text = .ok file) (hc : c ∈ file.classes) :
    c.node.name.toList ≠ [] ∧ ∀ d ∈ c.node.name.toList, isIdentCell d = true := by
  obtain ⟨hlayout, hnode⟩ := layout_of_mem_classes hfile hc
  have hcells := ClassLayout.cells_name hlayout hnode
  obtain ⟨hne, hident⟩ := Code.classLayouts_name hlayout
  rw [← hcells] at hne hident
  exact ⟨fun h => hne (by rw [h]; rfl), fun d hd => hident d (Text.mem_cells.mpr hd)⟩

end SourceFile

namespace ParsedClass

variable {text : Text} {file : SourceFile} {c : ParsedClass}

/-- The constructor that a legible plan makes is legible, if no keyword names it. -/
theorem legible_newConstructor (hfile : SourceFile.parse text = .ok file) (hc : c ∈ file.classes)
    {plan : ConstructorPlan} (hplan : plan.Legible)
    (hfree : c.node.name ∉ memberModifiers ++ declarationKeywords) :
    (c.node.newConstructor plan).Legible := by
  obtain ⟨hnamed, hident⟩ := SourceFile.name_of_mem_classes hfile hc
  have hpublic : ∀ m ∈ ["public"], m ∈ memberModifiers := by decide
  exact ⟨hpublic, hnamed, hident, hfree, hplan.parameters, rfl,
    plan.assignments, rfl, hplan.assignments⟩

/-- A class that a constructor can be put into: no keyword names it, no member is open at its closing
brace, and if it stands on one line, it may be laid out anew. -/
structure Roomy (c : ParsedClass) (text : Text) : Prop where
  lines : c.isOneLine text = true → c.Reflowable text
  free : c.node.name ∉ memberModifiers ++ declarationKeywords
  settled : c.layout.Settled text

theorem roomy_iff (c : ParsedClass) (text : Text) : c.Roomy text ↔
    (c.isOneLine text = true → c.Reflowable text) ∧
      c.node.name ∉ memberModifiers ++ declarationKeywords ∧ c.layout.Settled text :=
  ⟨fun h => ⟨h.lines, h.free, h.settled⟩, fun h => ⟨h.1, h.2.1, h.2.2⟩⟩

instance (c : ParsedClass) (text : Text) : Decidable (c.Roomy text) :=
  decidable_of_iff' _ (c.roomy_iff text)

/-- A constructor that can take what it lacks. If that is parameters, they go where nothing is open.
If it is statements, the constructor ends with its block, no statement is open at the end of that, and
none of what is added begins like one that carries on a statement. -/
structure Extensible (text : Text) (plan : ConstructorPlan) (layout : MemberLayout)
    (callable : CallableLayout) (block : BlockLayout) : Prop where
  continuable : plan.parameters ≠ [] → callable.Continuable text
  ends : plan.assignments ≠ [] → layout.range.stop = block.closing + 1
  settled : plan.assignments ≠ [] → block.Settled text
  free : ∀ field parameter, .assignment field parameter ∈ plan.assignments →
    field ∉ Code.continuations

/-- A class that can take what it lacks, in a new constructor or in the one that it has. -/
structure Receptive (c : ParsedClass) (text : Text) (plan : ConstructorPlan) : Prop where
  new : plan.constructorIndex = none → c.Roomy text
  extended : ∀ index layout callable block, plan.constructorIndex = some index →
    c.layout.members[index]? = some layout → layout.shape.callable? = some callable →
    callable.body.block? = some block → Extensible text plan layout callable block

/-- A class without a constructor is resolved to a text that is read as the class with one. -/
theorem exists_resolved_of_no_constructor (hfile : SourceFile.parse text = .ok file) {i : Nat}
    (hc : file.classes[i]? = some c) {plan : ConstructorPlan} (hplan : c.node.plan? = some plan)
    (hindex : plan.constructorIndex = none) (hlegible : plan.Legible) (h : c.Roomy text)
    (name : String) :
    ∃ w t' file' c', c.resolve false name text = .ok w ∧ text.applyEdits w.edits = .ok t' ∧
      SourceFile.parse t' = .ok file' ∧ file'.classes.length = file.classes.length ∧
      file'.classes[i]? = some c' ∧ c'.node = c.node.synthesize false := by
  have hmem := List.mem_of_getElem? hc
  have hcut := cuttable_of_mem_classes hfile hmem
  have hstyle := c.blanksOnly_style text
  have hnew := legible_newConstructor hfile hmem hlegible h.free
  obtain ⟨hlayout, -⟩ := SourceFile.layout_of_mem_classes hfile hmem
  obtain ⟨-, hresolve⟩ := resolve_eq_of_no_constructor hcut name hplan hindex
  have hsynthesize : c.node.synthesize false = { c.node with
      members := c.node.members ++ [.constructor (c.node.newConstructor plan)] } := by
    simp [ClassNode.synthesize, hplan, ClassNode.fulfil, hindex]
  cases hline : c.isOneLine text with
  | true =>
    rw [hline] at hresolve
    obtain ⟨t', file', c', happly, hread⟩ :=
      exists_expanded hfile hc hcut h.settled (h.lines hline) hline hnew rfl rfl name
    refine ⟨_, t', file', c', hresolve, ?_, hsynthesize ▸ hread⟩
    rw [Text.applyEdits_singleton]
    exact happly
  | false =>
    rw [hline] at hresolve
    obtain ⟨a, b, d, x, y, hgap, hx, hy, happly⟩ := exists_closingGap hcut hstyle
      (m := c.node.newConstructor plan) rfl name hlayout h.settled
    obtain ⟨-, -, file', c', -, -, -, -, -, hfile', hlength, hc', -, -, hnode⟩ :=
      SourceFile.exists_grown hfile hc hgap hx hy hstyle hnew rfl
    refine ⟨_, _, file', c', hresolve, ?_, hfile', hlength, hc', hnode.trans hsynthesize.symm⟩
    rw [Text.applyEdits_singleton]
    exact happly

/-- Where the constructor that a plan completes stands, and the edits that complete it. -/
theorem exists_constructor_of_plan (hfile : SourceFile.parse text = .ok file) {i : Nat}
    (hc : file.classes[i]? = some c) {plan : ConstructorPlan} (hplan : c.node.plan? = some plan)
    {index : Nat} (hindex : plan.constructorIndex = some index) (name : String) :
    ∃ ctor layout p x q start l block ss,
      c.node.firstConstructor? = some (index, ctor) ∧ ctor.body = .block ss ∧
      c.layout.members[index]? = some layout ∧
      layout.range.stop = (p ++ x).masked.size ∧
      layout.shape.callable? = some (l.shift p.masked.size) ∧ l.body = .block block ∧
      SourceFile.ConstructorAt text c index ctor p x q start l ∧
      TextEdit.Apart ((plan.replacements text (c.style text) (l.shift p.masked.size)
        (block.shift p.masked.size)).map (Replacement.toEdit name)) ∧
      c.resolve false name text = .ok ⟨(plan.replacements text (c.style text)
        (l.shift p.masked.size) (block.shift p.masked.size)).map (Replacement.toEdit name)⟩ := by
  obtain ⟨ctor, ss, hfirst, hbody⟩ : ∃ ctor ss, c.node.firstConstructor? = some (index, ctor) ∧
      ctor.body = .block ss := by
    rcases ClassNode.plan?_cases hplan with ⟨-, rfl⟩ | ⟨_, ctor, ss, hfirst, hbody, rfl⟩
    · cases hindex
    · obtain rfl := Option.some.inj hindex
      exact ⟨ctor, ss, hfirst, hbody⟩
  have hctor := ClassNode.firstConstructor?_spec hfirst
  obtain ⟨p, x, q, start, l, hat⟩ := SourceFile.exists_constructorAt hfile hc hctor
  obtain ⟨layout, hlayout, hrange, hshape⟩ := hat.layout hfile hc
  obtain ⟨layout', callable, block, hlayout', hcallable, hblock, -, hlaid, hps, hss⟩ :=
    exists_layout_of_constructor hfile (List.mem_of_getElem? hc) hctor hbody
  obtain rfl := Option.some.inj (hlayout.symm.trans hlayout')
  have hcallable' := hcallable
  rw [hshape] at hcallable'
  obtain rfl : l.shift p.masked.size = callable := Option.some.inj hcallable'
  obtain ⟨inner, hinner, rfl⟩ : ∃ inner, l.body = .block inner ∧
      inner.shift p.masked.size = block := by
    simp only [CallableLayout.shift] at hblock
    cases hl : l.body with
    | block inner =>
      rw [hl] at hblock
      exact ⟨inner, rfl, Option.some.inj hblock⟩
    | expression r => rw [hl] at hblock; cases hblock
    | absent => rw [hl] at hblock; cases hblock
  obtain ⟨hapart, hresolve⟩ := resolve_eq_of_constructor name hplan hindex hctor hbody hlayout
    hcallable hblock hlaid hps hss
  exact ⟨ctor, layout, p, x, q, start, l, inner, ss, hfirst, hbody, hlayout, by rw [hrange],
    hcallable, hinner, hat, hapart, hresolve⟩

/-- A class with a constructor is resolved to a text that is read as the class with that constructor
completed. -/
theorem exists_resolved_of_constructor (hfile : SourceFile.parse text = .ok file) {i : Nat}
    (hc : file.classes[i]? = some c) {plan : ConstructorPlan} (hplan : c.node.plan? = some plan)
    {index : Nat} (hindex : plan.constructorIndex = some index) (hlegible : plan.Legible)
    (h : c.Receptive text plan) (name : String) :
    ∃ w t' file' c', c.resolve false name text = .ok w ∧ text.applyEdits w.edits = .ok t' ∧
      SourceFile.parse t' = .ok file' ∧ file'.classes.length = file.classes.length ∧
      file'.classes[i]? = some c' ∧ c'.node = c.node.synthesize false := by
  obtain ⟨ctor, layout, p, x, q, start, l, block, ss, hfirst, hbody, hlayout, hstop, hcallable,
    hblock, hat, hapart, hresolve⟩ := exists_constructor_of_plan hfile hc hplan hindex name
  have hextensible := h.extended index layout _ (block.shift p.masked.size) hindex hlayout hcallable
    (by simp [CallableLayout.shift, hblock, BodyLayout.shift, BodyLayout.block?])
  have hend : plan.assignments ≠ [] → x.masked.size = block.closing + 1 := fun hne => by
    have hends := hextensible.ends hne
    rw [hstop] at hends
    simp only [BlockLayout.shift, Source.masked_append, Text.size_append] at hends
    omega
  obtain ⟨t', file', c', happly, hfile', hlength, hc', hnode⟩ :=
    SourceFile.exists_completed hfile hc hat (ClassNode.firstConstructor?_spec hfirst) hbody hblock
      (c.blanksOnly_style text) hlegible hextensible.continuable hend hextensible.settled
      hextensible.free name hapart.inTurn
  refine ⟨_, t', file', c', hresolve, happly, hfile', hlength, hc', ?_⟩
  have hsynthesize : c.node.synthesize false = c.node.fulfil plan := by
    simp [ClassNode.synthesize, hplan]
  rw [hnode, hsynthesize, ClassNode.fulfil_of_constructor hindex hfirst]

/-- A class with room for what it lacks is resolved to a text that is read as the class completed. -/
theorem exists_resolved_read (hfile : SourceFile.parse text = .ok file) {i : Nat}
    (hc : file.classes[i]? = some c) {plan : ConstructorPlan} (hplan : c.node.plan? = some plan)
    (hlegible : plan.Legible) (h : c.Receptive text plan) (name : String) :
    ∃ w t' file' c', c.resolve false name text = .ok w ∧ text.applyEdits w.edits = .ok t' ∧
      SourceFile.parse t' = .ok file' ∧ file'.classes.length = file.classes.length ∧
      file'.classes[i]? = some c' ∧ c'.node = c.node.synthesize false := by
  cases hindex : plan.constructorIndex with
  | none =>
    exact exists_resolved_of_no_constructor hfile hc hplan hindex hlegible (h.new hindex) name
  | some index => exact exists_resolved_of_constructor hfile hc hplan hindex hlegible h name

end ParsedClass

end ClassRefactor
