import ClassRefactor.Action.Refactor
import ClassRefactor.Proofs.Source.File
import ClassRefactor.Proofs.Splice.Class

/-!
# Resolving dependencies keeps the source

The edits that resolve the dependencies of a class add what the plan for it holds, and change
nothing else but white space.
-/

namespace ClassRefactor

namespace ParsedClass

variable {text : Text} {file : SourceFile} {c : ParsedClass}

theorem cuttable_of_mem_classes (hfile : SourceFile.parse text = .ok file)
    (hc : c ∈ file.classes) : c.Cuttable text := by
  have hread := SourceFile.readable_of_mem_classes hfile hc
  exact ⟨SourceFile.wellLaid_of_mem_classes hfile hc, Text.isBoundary_of_seam hread.header.2.1,
    fun m hm => Text.isBoundary_of_seam (hread.members m hm).range.2.2⟩

/-- Where a constructor or method stands in the source. -/
theorem exists_callable_of_member (hfile : SourceFile.parse text = .ok file)
    (hc : c ∈ file.classes) {index : Nat} {member : Member} {parts : List Parameter × Body}
    (hmember : c.node.members[index]? = some member) (hparts : member.callable? = some parts) :
    ∃ layout callable, c.layout.members[index]? = some layout ∧
      layout.shape.callable? = some callable ∧ callable.params.length = parts.1.length ∧
      callable.body.Mirrors parts.2 ∧
      callable.WellLaid text.cells layout.signature layout.range ∧
      callable.Readable text.mask.cells := by
  obtain ⟨layout, hlayout, hmirrors⟩ := exists_getElem?_of_forall₂
    (SourceFile.mirrors_of_mem_classes hfile hc) hmember
  have hmem := List.mem_of_getElem? hlayout
  have hread := (SourceFile.readable_of_mem_classes hfile hc).members layout hmem
  have hlaid := (SourceFile.wellLaid_of_mem_classes hfile hc).member layout hmem
  unfold MemberLayout.Mirrors at hmirrors
  rw [hparts] at hmirrors
  cases hcallable : layout.shape.callable? with
  | none =>
    rw [hcallable] at hmirrors
    cases hmirrors
  | some callable =>
    rw [hcallable] at hmirrors
    cases hmirrors with
    | some h =>
      exact ⟨layout, callable, hlayout, hcallable, h.1, h.2, hlaid.callable callable hcallable,
        hread.shape.callable hcallable⟩

/-- Where a constructor with a block stands in the source. -/
theorem exists_layout_of_constructor (hfile : SourceFile.parse text = .ok file)
    (hc : c ∈ file.classes) {index : Nat} {ctor : Constructor} {statements : List Statement}
    (hctor : c.node.members[index]? = some (.constructor ctor))
    (hbody : ctor.body = .block statements) :
    ∃ layout callable block, c.layout.members[index]? = some layout ∧
      layout.shape.callable? = some callable ∧ callable.body.block? = some block ∧
      callable.params.length = ctor.parameters.length ∧
      callable.WellLaid text.cells layout.signature layout.range ∧
      (∀ p ∈ callable.params, text.isBoundary p.range.stop = true) ∧
      ∀ r ∈ block.statements, text.isBoundary r.stop = true := by
  obtain ⟨layout, callable, hlayout, hcallable, hparams, hblock, hlaid, hread⟩ :=
    exists_callable_of_member hfile hc hctor rfl
  simp only [BodyLayout.Mirrors, hbody, Body.block?] at hblock
  -- Only the block of the layout mirrors a block.
  cases hlayoutBody : callable.body with
  | expression r => simp only [hlayoutBody, BodyLayout.block?] at hblock; cases hblock
  | absent => simp only [hlayoutBody, BodyLayout.block?] at hblock; cases hblock
  | block block =>
    have hstatements := hread.body
    rw [hlayoutBody] at hstatements
    refine ⟨layout, callable, block, hlayout, hcallable, by simp [hlayoutBody, BodyLayout.block?],
      hparams, hlaid, ?_, ?_⟩
    · exact fun p hp => Text.isBoundary_of_seam (hread.params p hp).range.2.2
    · exact fun r hr => Text.isBoundary_of_seam (hstatements r hr).2.2

/-- A class with a plan is spliced towards the tree that fulfils it. -/
theorem resolve_eq (name : String) (text : Text) {plan : ConstructorPlan}
    (hplan : c.node.plan? = some plan) :
    c.resolve false name text = c.editTo name text (c.node.fulfil plan) := by
  simp [resolve, ClassNode.isApplicable, ClassNode.synthesize, hplan]

theorem exists_plan_of_resolve {name : String} {w : WorkspaceEdit}
    (h : c.resolve false name text = .ok w) : ∃ plan, c.node.plan? = some plan := by
  cases hplan : c.node.plan? with
  | some plan => exact ⟨plan, rfl⟩
  | none => simp [resolve, ClassNode.isApplicable, hplan] at h

/-- Replacements that stay apart become the edits themselves. -/
theorem editTo_eq {name : String} {new : ClassNode} {rs : List Replacement}
    (hsplice : c.splice text new = rs)
    (hapart : TextEdit.Apart (rs.map (Replacement.toEdit name))) :
    c.editTo name text new = .ok ⟨rs.map (Replacement.toEdit name)⟩ := by
  have hmap : (c.splice text new).map (fun r => ⟨name, r.range, r.text⟩) =
      rs.map (Replacement.toEdit name) := by
    rw [hsplice]
    rfl
  simp only [editTo, hmap, hapart.normalized_eq]
  rfl

/-- A class without a constructor gets one edit. -/
theorem resolve_eq_of_no_constructor (hc : c.Cuttable text) (name : String)
    {plan : ConstructorPlan} (hplan : c.node.plan? = some plan)
    (hindex : plan.constructorIndex = none) :
    let r := if c.isOneLine text then
        c.expandOneLine text (c.style text) [.constructor (c.node.newConstructor plan)]
      else c.appendMembers text (c.style text) [.constructor (c.node.newConstructor plan)]
    TextEdit.Apart [r.toEdit name] ∧ c.resolve false name text = .ok ⟨[r.toEdit name]⟩ := by
  intro r
  have hapart : TextEdit.Apart [r.toEdit name] := by
    have hstyle := c.blank_style text
    apply Replacement.apart_singleton
    simp only [r]
    split
    · exact (expandOneLine_spec hc hstyle _ name).1
    · exact (appendMembers_spec hc hstyle _).1.ordered
  refine ⟨hapart, ?_⟩
  rw [resolve_eq name text hplan]
  exact editTo_eq (splice_fulfil_of_none c text hindex) hapart

/-- A new constructor is put before the closing brace of its class. -/
theorem resolve_of_no_constructor (hc : c.Cuttable text) (name : String) {plan : ConstructorPlan}
    (hplan : c.node.plan? = some plan) (hindex : plan.constructorIndex = none) :
    ∃ w t', c.resolve false name text = .ok w ∧ text.applyEdits w.edits = .ok t' ∧
      t'.strip = (text.before c.layout.closing).strip ++
        content ((c.node.newConstructor plan).render (c.style text)) ++
        (text.after c.layout.closing).strip := by
  have hstyle := c.blank_style text
  rw [(resolve_eq_of_no_constructor hc name hplan hindex).2]
  split
  · obtain ⟨-, t', happly, hstrip⟩ := expandOneLine_spec hc hstyle
      (.constructor (c.node.newConstructor plan)) name
    rw [← Text.applyEdits_singleton] at happly
    exact ⟨_, t', rfl, happly, hstrip⟩
  · obtain ⟨hinserts, hcontent⟩ := appendMembers_spec hc hstyle
      (.constructor (c.node.newConstructor plan))
    obtain ⟨t', happly, hstrip⟩ := hinserts.apply name
    rw [hcontent] at hstrip
    rw [← Text.applyEdits_singleton] at happly
    exact ⟨_, t', rfl, happly, hstrip⟩

/-- Parameters go to a boundary that is not after the closing parenthesis. -/
theorem parameterStop_spec {callable : CallableLayout} {signature range : Range}
    (hlaid : callable.WellLaid text.cells signature range)
    (hparamStops : ∀ p ∈ callable.params, text.isBoundary p.range.stop = true) :
    text.isBoundary callable.parameterStop = true ∧ callable.opening < callable.parameterStop ∧
      callable.parameterStop ≤ callable.closing := by
  unfold CallableLayout.parameterStop
  cases hlast : callable.params.getLast? with
  | none =>
    exact ⟨(Text.isBoundary_of_ascii_cell hlaid.closes (by decide)).1, hlaid.ordered,
      Nat.le_refl _⟩
  | some p =>
    have hp := List.mem_of_getLast? hlast
    obtain ⟨h1, h2, h3⟩ := hlaid.params.within p.range (List.mem_map_of_mem hp)
    refine ⟨hparamStops p hp, ?_, h3⟩
    simp only [Option.map_some, Option.getD_some]
    omega

/-- A class with a constructor gets the edits for what that constructor lacks. -/
theorem resolve_eq_of_constructor (name : String) {plan : ConstructorPlan} {index : Nat}
    {ctor : Constructor} {statements : List Statement} {layout : MemberLayout}
    {callable : CallableLayout} {block : BlockLayout} (hplan : c.node.plan? = some plan)
    (hindex : plan.constructorIndex = some index)
    (hctor : c.node.members[index]? = some (.constructor ctor))
    (hbody : ctor.body = .block statements) (hlayout : c.layout.members[index]? = some layout)
    (hcallable : layout.shape.callable? = some callable)
    (hblock : callable.body.block? = some block)
    (hlaid : callable.WellLaid text.cells layout.signature layout.range)
    (hparamStops : ∀ p ∈ callable.params, text.isBoundary p.range.stop = true)
    (hstatementStops : ∀ r ∈ block.statements, text.isBoundary r.stop = true) :
    TextEdit.Apart ((plan.replacements text (c.style text) callable block).map
        (Replacement.toEdit name)) ∧
      c.resolve false name text =
        .ok ⟨(plan.replacements text (c.style text) callable block).map
          (Replacement.toEdit name)⟩ := by
  have hstyle := c.blank_style text
  obtain ⟨s, hs, -⟩ := callable.appendParameters_spec text hstyle plan.parameters
  obtain ⟨hinserts, hafter, -⟩ := BlockLayout.appendStatements_spec (hlaid.block block hblock)
    hstatementStops hstyle plan.assignments
  have hlt : callable.parameterStop <
      (block.appendStatements text (c.style text) plan.assignments).range.start := by
    have := (hlaid.block block hblock).after
    have := (parameterStop_spec hlaid hparamStops).2.2
    omega
  have hapart := hinserts.apart_additions plan.parameters.isEmpty plan.assignments.isEmpty hlt s
    name
  rw [← hs, ← ConstructorPlan.replacements] at hapart
  refine ⟨hapart, ?_⟩
  rw [resolve_eq name text hplan]
  refine editTo_eq ?_ hapart
  rw [splice_fulfil_of_some text hindex (ClassNode.nonempty?_of_plan? hplan) hctor hbody hlayout
    hcallable hblock]
  apply List.mergeSort_of_pairwise
  exact List.pairwise_map.mp hapart.inTurn.pairwise_isLE

/-- A constructor receives its parameters after those it has, and its statements before the closing
brace of its block. -/
theorem resolve_of_constructor (name : String) {plan : ConstructorPlan} {index : Nat}
    {ctor : Constructor} {statements : List Statement} {layout : MemberLayout}
    {callable : CallableLayout} {block : BlockLayout} (hplan : c.node.plan? = some plan)
    (hindex : plan.constructorIndex = some index)
    (hctor : c.node.members[index]? = some (.constructor ctor))
    (hbody : ctor.body = .block statements) (hlayout : c.layout.members[index]? = some layout)
    (hcallable : layout.shape.callable? = some callable)
    (hblock : callable.body.block? = some block)
    (hparams : callable.params.length = ctor.parameters.length)
    (hlaid : callable.WellLaid text.cells layout.signature layout.range)
    (hparamStops : ∀ p ∈ callable.params, text.isBoundary p.range.stop = true)
    (hstatementStops : ∀ r ∈ block.statements, text.isBoundary r.stop = true) :
    ∃ w t', c.resolve false name text = .ok w ∧ text.applyEdits w.edits = .ok t' ∧
      t'.strip = (text.before callable.parameterStop).strip ++
        content (addedParameters (!ctor.parameters.isEmpty) plan.parameters) ++
        (text.slice callable.parameterStop block.closing).strip ++
        content (concat (plan.assignments.map Statement.render)) ++
        (text.after block.closing).strip := by
  have hstyle := c.blank_style text
  have hblockLaid := hlaid.block block hblock
  have hfollows : callable.params.isEmpty = ctor.parameters.isEmpty := by
    rw [Bool.eq_iff_iff, List.isEmpty_iff_length_eq_zero, List.isEmpty_iff_length_eq_zero, hparams]
  have hstop := parameterStop_spec hlaid hparamStops
  obtain ⟨s, hs, hsContent⟩ := callable.appendParameters_spec text hstyle plan.parameters
  obtain ⟨hinserts, hafter, hcontent⟩ := BlockLayout.appendStatements_spec hblockLaid
    hstatementStops hstyle plan.assignments
  have hlt : callable.parameterStop <
      (block.appendStatements text (c.style text) plan.assignments).range.start := by
    have := hblockLaid.after
    omega
  rw [hfollows] at hsContent
  -- Either list of additions may be empty, and then leaves no trace.
  have hsome : (plan.parameters.isEmpty && plan.assignments.isEmpty) = false := by
    have hne := ConstructorPlan.ne_nil_of_nonempty? (ClassNode.nonempty?_of_plan? hplan)
    rw [Bool.and_eq_false_iff, List.isEmpty_eq_false_iff, List.isEmpty_eq_false_iff]
    exact hne
  obtain ⟨t', happly, hstrip⟩ := hinserts.apply_additions hstop.1 hlt name hsome
    (fun hnil => by rw [hsContent, List.isEmpty_iff.mp hnil]; simp [addedParameters,
      renderParameters, joinWith])
    (fun hnil => by rw [hcontent, List.isEmpty_iff.mp hnil]; rfl) rfl
  rw [← hs] at happly
  rw [hsContent, hcontent] at hstrip
  exact ⟨_, t', (resolve_eq_of_constructor name hplan hindex hctor hbody hlayout hcallable hblock
    hlaid hparamStops hstatementStops).2, happly, hstrip⟩

/-- A class with a plan is resolved. A new constructor goes before the closing brace of the class,
and an existing one receives its parameters after those it has, and its statements before the
closing brace of its block. -/
theorem exists_resolved (hfile : SourceFile.parse text = .ok file) (hc : c ∈ file.classes)
    (name : String) {plan : ConstructorPlan} (hplan : c.node.plan? = some plan) :
    ∃ w t', c.resolve false name text = .ok w ∧ text.applyEdits w.edits = .ok t' ∧
      (c.node.firstConstructor? = none →
        t'.strip = (text.before c.layout.closing).strip ++
          content ((c.node.newConstructor plan).render (c.style text)) ++
          (text.after c.layout.closing).strip) ∧
      ∀ index ctor, c.node.firstConstructor? = some (index, ctor) →
        ∃ layout callable block, c.layout.members[index]? = some layout ∧
          layout.shape.callable? = some callable ∧ callable.body.block? = some block ∧
          t'.strip = (text.before callable.parameterStop).strip ++
            content (addedParameters (!ctor.parameters.isEmpty) plan.parameters) ++
            (text.slice callable.parameterStop block.closing).strip ++
            content (concat (plan.assignments.map Statement.render)) ++
            (text.after block.closing).strip := by
  rcases ClassNode.plan?_cases hplan with ⟨hnone, hshape⟩ | ⟨index, ctor, ss, hfirst, hbody, hshape⟩
  · obtain ⟨w, t', hw, happly, hstrip⟩ := resolve_of_no_constructor
      (cuttable_of_mem_classes hfile hc) name hplan (by rw [hshape])
    exact ⟨w, t', hw, happly, fun _ => hstrip, by simp [hnone]⟩
  · have hctor := ClassNode.firstConstructor?_spec hfirst
    obtain ⟨layout, callable, block, hlayout, hcallable, hblock, hparams, hlaid, hps, hss⟩ :=
      exists_layout_of_constructor hfile hc hctor hbody
    obtain ⟨w, t', hw, happly, hstrip⟩ := resolve_of_constructor name hplan (by rw [hshape]) hctor
      hbody hlayout hcallable hblock hparams hlaid hps hss
    refine ⟨w, t', hw, happly, by simp [hfirst], fun i k hik => ?_⟩
    rw [hfirst] at hik
    simp only [Option.some.injEq, Prod.mk.injEq] at hik
    obtain ⟨rfl, rfl⟩ := hik
    exact ⟨layout, callable, block, hlayout, hcallable, hblock, hstrip⟩

/-- Resolving the dependencies of a class adds what its plan holds and keeps all that is there. A new
constructor goes before the closing brace of the class. An existing one receives its parameters
after those it has, and its statements before the closing brace of its block. -/
theorem resolve_keeps_content {name : String} {w : WorkspaceEdit}
    (hfile : SourceFile.parse text = .ok file) (hc : c ∈ file.classes)
    (hw : c.resolve false name text = .ok w) :
    ∃ plan t', c.node.plan? = some plan ∧ text.applyEdits w.edits = .ok t' ∧
      (c.node.firstConstructor? = none →
        t'.strip = (text.before c.layout.closing).strip ++
          content ((c.node.newConstructor plan).render (c.style text)) ++
          (text.after c.layout.closing).strip) ∧
      ∀ index ctor, c.node.firstConstructor? = some (index, ctor) →
        ∃ layout callable block, c.layout.members[index]? = some layout ∧
          layout.shape.callable? = some callable ∧ callable.body.block? = some block ∧
          t'.strip = (text.before callable.parameterStop).strip ++
            content (addedParameters (!ctor.parameters.isEmpty) plan.parameters) ++
            (text.slice callable.parameterStop block.closing).strip ++
            content (concat (plan.assignments.map Statement.render)) ++
            (text.after block.closing).strip := by
  obtain ⟨plan, hplan⟩ := exists_plan_of_resolve hw
  obtain ⟨w', t', hw', happly, hnew, hextended⟩ := exists_resolved hfile hc name hplan
  rw [hw] at hw'
  obtain rfl := Except.ok.inj hw'
  exact ⟨plan, t', hplan, happly, hnew, hextended⟩

/-- A class without a constructor, and one whose constructor lacks a parameter and a statement. -/
def twoClasses : Text :=
  ("class C \x7b readonly A _a; \x7d " ++
    "class D \x7b readonly A _a; readonly B _b; D(A a) \x7b _a = a; \x7d \x7d").toList

theorem resolve_keeps_content_twoClasses :
    ∃ (file : SourceFile) (c d : ParsedClass) (w v : WorkspaceEdit) (t' u' : Text),
      SourceFile.parse twoClasses = .ok file ∧ c ∈ file.classes ∧ d ∈ file.classes ∧
      c.resolve false "C.cs" twoClasses = .ok w ∧ twoClasses.applyEdits w.edits = .ok t' ∧
      t'.strip = ("classC\x7breadonlyA_a;publicC(Aa)\x7b_a=a;\x7d\x7d" ++
        "classD\x7breadonlyA_a;readonlyB_b;D(Aa)\x7b_a=a;\x7d\x7d").toList ∧
      d.resolve false "C.cs" twoClasses = .ok v ∧ twoClasses.applyEdits v.edits = .ok u' ∧
      u'.strip = ("classC\x7breadonlyA_a;\x7d" ++
        "classD\x7breadonlyA_a;readonlyB_b;D(Aa,Bb)\x7b_a=a;_b=b;\x7d\x7d").toList := by
  obtain ⟨file, hfile⟩ := SourceFile.exists_parse twoClasses
  have hbare : (SourceFile.parse twoClasses).toOption.bind (fun f => f.classes[0]?.bind fun c =>
      c.node.plan?.map fun p => (c.node.firstConstructor?.isNone, c.layout.closing,
        content ((c.node.newConstructor p).render (c.style twoClasses)))) =
      some (true, 25, "publicC(Aa)\x7b_a=a;\x7d".toList) := by
    decide +kernel
  have hlacking : (SourceFile.parse twoClasses).toOption.bind (fun f => f.classes[1]?.bind fun d =>
      d.node.plan?.bind fun p => d.node.firstConstructor?.map fun k =>
        (k.1 == 2 && k.2.parameters.length == 1, content (addedParameters true p.parameters),
          content (concat (p.assignments.map Statement.render)))) =
      some (true, ",Bb".toList, "_b=b;".toList) := by
    decide +kernel
  have hplaces : (SourceFile.parse twoClasses).toOption.bind (fun f => f.classes[1]?.bind fun d =>
      d.layout.members[2]?.bind fun m => m.shape.callable?.bind fun k => k.body.block?.map fun b =>
        (k.parameterStop, b.closing)) = some (72, 84) := by
    decide +kernel
  rw [hfile] at hbare hlacking hplaces
  simp only [Except.toOption, Option.bind_some, Option.map_eq_some_iff, Prod.mk.injEq,
    Bool.and_eq_true, Option.isNone_iff_eq_none, Option.bind_eq_some_iff, beq_iff_eq]
    at hbare hlacking hplaces
  obtain ⟨c, hc, plan, hplan, hfirst, hclosing, hnew⟩ := hbare
  obtain ⟨d, hd, plan', hplan', ⟨index, ctor⟩, hctor, ⟨rfl, hparams⟩, hparameters, hstatements⟩ :=
    hlacking
  obtain ⟨d', hd', layout, hlayout, callable, hcallable, block, hblock, hstop, hblockClosing⟩ :=
    hplaces
  obtain rfl := Option.some.inj (hd.symm.trans hd')
  have hcmem := List.mem_of_getElem? hc
  have hdmem := List.mem_of_getElem? hd
  obtain ⟨w, -, hw, -⟩ := exists_resolved hfile hcmem "C.cs" hplan
  obtain ⟨v, -, hv, -⟩ := exists_resolved hfile hdmem "C.cs" hplan'
  obtain ⟨p, t', hp, happly, hbare, -⟩ := resolve_keeps_content hfile hcmem hw
  obtain ⟨q, u', hq, happly', -, hextended⟩ := resolve_keeps_content hfile hdmem hv
  obtain rfl := Option.some.inj (hplan.symm.trans hp)
  obtain rfl := Option.some.inj (hplan'.symm.trans hq)
  refine ⟨file, c, d, w, v, t', u', hfile, hcmem, hdmem, hw, happly, ?_, hv, happly', ?_⟩
  · rw [hbare hfirst, hnew, hclosing]
    decide +kernel
  · obtain ⟨l, k, b, hl, hk, hb, hstrip⟩ := hextended 2 ctor hctor
    obtain rfl := Option.some.inj (hlayout.symm.trans hl)
    obtain rfl := Option.some.inj (hcallable.symm.trans hk)
    obtain rfl := Option.some.inj (hblock.symm.trans hb)
    have hnonempty : ctor.parameters.isEmpty = false := by
      rw [List.isEmpty_eq_false_iff, ← List.length_pos_iff]
      simp only at hparams
      omega
    rw [hstrip, hnonempty, Bool.not_false, hparameters, hstatements, hstop, hblockClosing]
    decide +kernel

end ParsedClass

end ClassRefactor
