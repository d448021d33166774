import ClassRefactor.Proofs.Growth.Resolve

/-!
# What a resolved class is read back as

The parameter of a field is named after it, and the name may be none: the field `_null` makes the
parameter `null`. The assignment that is written for such a field is not read as one, so the tree
that was meant is read from no text.
-/

namespace ClassRefactor

namespace ClassNode

variable {c : ClassNode} {plan : ConstructorPlan}

/-- The tree that fulfils a plan has a constructor that makes all assignments of the plan. -/
theorem exists_constructor_fulfil (h : c.plan? = some plan) :
    ∃ ctor ss, .constructor ctor ∈ (c.fulfil plan).members ∧ ctor.body = .block ss ∧
      ∀ s ∈ plan.assignments, s ∈ ss := by
  rcases plan?_cases h with ⟨hfirst, hshape⟩ | ⟨index, ctor, ss, hfirst, hbody, hshape⟩
  · have hindex : plan.constructorIndex = none := by rw [hshape]
    refine ⟨c.newConstructor plan, plan.assignments, ?_, rfl, fun s hs => hs⟩
    exact List.mem_of_getElem?
      (firstConstructor?_spec (firstConstructor?_fulfil_of_none hindex hfirst))
  · have hindex : plan.constructorIndex = some index := by rw [hshape]
    refine ⟨ctor.extend plan, ss ++ plan.assignments, ?_, by simp [Constructor.extend, hbody],
      fun s hs => List.mem_append_right _ hs⟩
    exact List.mem_of_getElem?
      (firstConstructor?_spec (firstConstructor?_fulfil_of_some hindex hfirst))

/-- A tree with an assignment that is not between names is read from no text. -/
theorem not_read_of_not_names (h : c.plan? = some plan) {field parameter : String}
    (hmem : .assignment field parameter ∈ plan.assignments)
    (hnot : ¬ (Statement.isName field = true ∧ Statement.isName parameter = true)) {text : Text}
    {file : SourceFile} (hfile : SourceFile.parse text = .ok file) {d : ParsedClass}
    (hd : d ∈ file.classes) : (d.node == c.synthesize false) = false := by
  rw [Bool.eq_false_iff]
  intro hbeq
  obtain ⟨ctor, ss, hctor, hbody, hall⟩ := exists_constructor_fulfil h
  have hsynthesize : c.synthesize false = c.fulfil plan := by simp [synthesize, h]
  rw [hsynthesize] at hbeq
  obtain ⟨ctor', ss', hctor', hbody', hmem'⟩ :=
    exists_assignment_of_beq hbeq hctor hbody (hall _ hmem)
  exact hnot (SourceFile.names_of_mem_classes hfile hd hctor' hbody' hmem')

end ClassNode

namespace ParsedClass

variable {c : ParsedClass}

/-- A class that lacks nothing is not resolved. -/
theorem resolve_of_plan?_eq_none (h : c.node.plan? = none) (name : String) (text : Text) :
    c.resolve false name text = .error .notApplicable := by
  simp [resolve, ClassNode.isApplicable, h]

/-- What a class is read back as. An assignment that is written for it is read, where nothing of it is
masked, exactly when it is between names; if one is not, no text is read as the class with its
constructor, whatever the edits make of the source. If all that the class lacks is legible, and there
is room for it, the resolved text is read as the classes that it held, of which this one has its
constructor and lacks nothing any more. -/
theorem resolve_read_back (text : Text) :
    ∃ file, SourceFile.parse text = .ok file ∧ ∀ (i : Nat) (c : ParsedClass),
      file.classes[i]? = some c → ∀ plan, c.node.plan? = some plan →
      (∀ field parameter, .assignment field parameter ∈ plan.assignments →
        (Statement.ofText (Statement.assignment field parameter).render.toList
            (Statement.assignment field parameter).render.toList = .assignment field parameter ↔
          Statement.isName field = true ∧ Statement.isName parameter = true) ∧
        (¬ (Statement.isName field = true ∧ Statement.isName parameter = true) →
          ∀ text' file', SourceFile.parse text' = .ok file' → ∀ d ∈ file'.classes,
            (d.node == c.node.synthesize false) = false)) ∧
      (plan.Legible → c.Receptive text plan → ∀ name,
        ∃ w t' file' c', c.resolve false name text = .ok w ∧ text.applyEdits w.edits = .ok t' ∧
          SourceFile.parse t' = .ok file' ∧ file'.classes.length = file.classes.length ∧
          file'.classes[i]? = some c' ∧ c'.node = c.node.synthesize false ∧
          c'.resolve false name t' = .error .notApplicable) := by
  obtain ⟨file, hfile⟩ := SourceFile.exists_parse text
  refine ⟨file, hfile, fun i c hc plan hplan => ⟨fun field parameter hmem => ⟨?_, ?_⟩, ?_⟩⟩
  · exact Statement.ofText_render_iff field parameter
  · intro hnot text' file' hfile' d hd
    exact ClassNode.not_read_of_not_names hplan hmem hnot hfile' hd
  · intro hlegible hreceptive name
    obtain ⟨w, t', file', c', hw, ht', hfile', hlength, hc', hnode⟩ :=
      exists_resolved_read hfile hc hplan hlegible hreceptive name
    refine ⟨w, t', file', c', hw, ht', hfile', hlength, hc', hnode, ?_⟩
    exact resolve_of_plan?_eq_none (hnode ▸ ClassNode.plan?_synthesize c.node) name t'

/-- A class whose dependency is named after a literal. -/
def nullField : Text := "class C \x7b readonly A _null; \x7d".toList

/-- A class over several lines with a dependency, one with two, of which its constructor takes only
the first and assigns none, and a class on one line. -/
def lacking : Text :=
  ("class C\n\x7b\n    readonly A _a;\n\x7d\n" ++
    "class D\n\x7b\n    readonly A _a;\n    readonly B _b;\n    D(A a)\n    \x7b\n    \x7d\n\x7d\n" ++
    "class E \x7b readonly A _a; /* end */ \x7d").toList

theorem resolve_read_back_lacking :
    (∃ (file : SourceFile) (c : ParsedClass), SourceFile.parse nullField = .ok file ∧
      file.classes[0]? = some c ∧ ∀ text' file', SourceFile.parse text' = .ok file' →
        ∀ d ∈ file'.classes, (d.node == c.node.synthesize false) = false) ∧
    ∃ file, SourceFile.parse lacking = .ok file ∧ file.classes.length = 3 ∧
      ∀ i < 3, ∃ (c c' : ParsedClass) (file' : SourceFile) (w : WorkspaceEdit) (t' : Text),
        file.classes[i]? = some c ∧ c.resolve false "C.cs" lacking = .ok w ∧
        lacking.applyEdits w.edits = .ok t' ∧ SourceFile.parse t' = .ok file' ∧
        file'.classes.length = file.classes.length ∧ file'.classes[i]? = some c' ∧
        c'.node = c.node.synthesize false ∧ c'.resolve false "C.cs" t' = .error .notApplicable := by
  constructor
  · obtain ⟨file, hfile, hback⟩ := resolve_read_back nullField
    have hrun : (SourceFile.parse nullField).toOption.bind (fun f => f.classes[0]?.bind fun c =>
        c.node.plan?.map fun plan => plan.assignments == [.assignment "_null" "null"]) =
        some true := by
      decide +kernel
    rw [hfile] at hrun
    simp only [Except.toOption, Option.bind_some, Option.bind_eq_some_iff,
      Option.map_eq_some_iff] at hrun
    obtain ⟨c, hc, plan, hplan, hassignments⟩ := hrun
    obtain ⟨s, hs, hbeq⟩ := exists_beq_of_mem hassignments List.mem_cons_self
    rw [Statement.eq_assignment_of_beq hbeq] at hs
    exact ⟨file, c, hfile, hc, ((hback 0 c hc plan hplan).1 _ _ hs).2 (by decide +kernel)⟩
  · obtain ⟨file, hfile, hback⟩ := resolve_read_back lacking
    have hnew : ∀ i ∈ [0, 2], (SourceFile.parse lacking).toOption.bind (fun f =>
        f.classes[i]?.bind fun c => c.node.plan?.map fun plan => (c.node.candidates,
          plan.constructorIndex, decide (c.Roomy lacking))) =
        some ([⟨{ name := "A" }, "_a", "a"⟩], none, true) := by
      decide +kernel
    have hextended : (SourceFile.parse lacking).toOption.bind (fun f => f.classes[1]?.bind fun c =>
        c.node.plan?.bind fun plan => c.layout.members[2]?.bind fun m =>
          m.shape.callable?.bind fun k => k.body.block?.map fun b =>
            (c.node.candidates, plan.constructorIndex, f.classes.length == 3 &&
              decide (k.Continuable lacking) && m.range.stop == b.closing + 1 &&
                decide (b.Settled lacking), plan.assignments.filterMap Statement.target?)) =
        some ([⟨{ name := "A" }, "_a", "a"⟩, ⟨{ name := "B" }, "_b", "b"⟩], some 2, true,
          ["_a", "_b"]) := by
      decide +kernel
    rw [hfile] at hnew hextended
    simp only [Except.toOption, Option.bind_some, Option.bind_eq_some_iff, Option.map_eq_some_iff,
      Prod.mk.injEq, Bool.and_eq_true, beq_iff_eq, decide_eq_true_eq] at hnew hextended
    obtain ⟨d, hd, plan, hplan, layout, hlayout, callable, hcallable, block, hblock, hcandidates,
      hindex, ⟨⟨⟨hlength, hcontinuable⟩, hends⟩, hsettled⟩, htargets⟩ := hextended
    have hfirst : Candidate.Legible ⟨{ name := "A" }, "_a", "a"⟩ :=
      ⟨(TypeRef.Plain.mk (by decide) (by simp)).wellFormed, by decide +kernel, by decide +kernel,
        by decide +kernel⟩
    have hsecond : Candidate.Legible ⟨{ name := "B" }, "_b", "b"⟩ :=
      ⟨(TypeRef.Plain.mk (by decide) (by simp)).wellFormed, by decide +kernel, by decide +kernel,
        by decide +kernel⟩
    refine ⟨file, hfile, hlength, fun i hi => ?_⟩
    obtain hi | rfl : i ∈ [0, 2] ∨ i = 1 := by
      simp only [List.mem_cons, List.not_mem_nil, or_false]
      omega
    · obtain ⟨c, hc, plan, hplan, hcandidates, hindex, hroomy⟩ := hnew i hi
      obtain ⟨w, t', file', c', h⟩ := (hback i c hc plan hplan).2
        (ConstructorPlan.legible_of_candidates hplan (by simpa [hcandidates] using hfirst))
        ⟨fun _ => hroomy, by simp [hindex]⟩ "C.cs"
      exact ⟨c, c', file', w, t', hc, h⟩
    · have hfree : ∀ field parameter, .assignment field parameter ∈ plan.assignments →
          field ∉ Code.continuations := by
        intro field parameter hmem
        have hfield : field ∈ plan.assignments.filterMap Statement.target? :=
          List.mem_filterMap.mpr ⟨_, hmem, rfl⟩
        rw [htargets] at hfield
        have hnone : ∀ w ∈ ["_a", "_b"], w ∉ Code.continuations := by decide
        exact hnone field hfield
      have hreceptive : d.Receptive lacking plan := by
        refine ⟨fun h => ?_, fun index l k b h hl hk hb => ?_⟩
        · rw [hindex] at h
          cases h
        obtain rfl := Option.some.inj (hindex.symm.trans h)
        obtain rfl := Option.some.inj (hlayout.symm.trans hl)
        obtain rfl := Option.some.inj (hcallable.symm.trans hk)
        obtain rfl := Option.some.inj (hblock.symm.trans hb)
        exact ⟨fun _ => hcontinuable, fun _ => hends, fun _ => hsettled, hfree⟩
      obtain ⟨w, t', file', d', h⟩ := (hback 1 d hd plan hplan).2
        (ConstructorPlan.legible_of_candidates hplan
          (by simpa [hcandidates] using ⟨hfirst, hsecond⟩)) hreceptive "C.cs"
      exact ⟨d, d', file', w, t', hd, h⟩

/-- The class with the field `_null` is resolved, is then read as another tree than the one that was
meant, and is to be resolved once more. -/
theorem resolve_nullField_again :
    ∃ (file file' : SourceFile) (c c' : ParsedClass) (w : WorkspaceEdit) (t' : Text),
      SourceFile.parse nullField = .ok file ∧ file.classes.head? = some c ∧
      c.resolve false "C.cs" nullField = .ok w ∧ nullField.applyEdits w.edits = .ok t' ∧
      SourceFile.parse t' = .ok file' ∧ file'.classes = [c'] ∧
      (c'.node == c.node.synthesize false) = false ∧ c'.node.isApplicable false = true := by
  have hrun : (SourceFile.parse nullField).toOption.bind (fun f => f.classes.head?.bind fun c =>
      (c.resolve false "C.cs" nullField).toOption.bind fun w =>
        (nullField.applyEdits w.edits).toOption.bind fun t' =>
          (SourceFile.parse t').toOption.map fun f' => f'.classes.map fun c' =>
            (c'.node == c.node.synthesize false, c'.node.isApplicable false)) =
      some [(false, true)] := by
    decide +kernel
  have hok : ∀ {ε α : Type} {x : Except ε α} {a : α}, x.toOption = some a → x = .ok a := by
    intro ε α x a h
    cases x with
    | error e => cases h
    | ok b => rw [Option.some.inj h]
  simp only [Option.bind_eq_some_iff, Option.map_eq_some_iff] at hrun
  obtain ⟨file, hfile, c, hc, w, hw, t', ht', file', hfile', hclasses⟩ := hrun
  obtain ⟨c', hc', heq⟩ := List.map_eq_singleton_iff.mp hclasses
  obtain ⟨hnode, happlicable⟩ := Prod.mk.inj heq
  exact ⟨file, file', c, c', w, t', hok hfile, hc, hok hw, hok ht', hok hfile', hc', hnode,
    happlicable⟩

end ParsedClass

end ClassRefactor
