import ClassRefactor.Check.Visit
import ClassRefactor.Proofs.Action.Every
import ClassRefactor.Proofs.Dependency.Applicability

/-!
# A check finds what would be resolved

A check judges a class by its summary; resolving it goes through the plan, the new tree and the
edits. Both single out the same classes, and a finding names what the new tree has more than the
old one.
-/

namespace ClassRefactor

/-- What one tree has more than another: parameters and statements at the end of the first
constructor, or a whole constructor after all members if there was none. -/
inductive ClassNode.Gains (old new : ClassNode) : List Parameter → List Statement → Prop
  | appended {ctor : Constructor} {statements : List Statement}
      (none_before : old.firstConstructor? = none) (body : ctor.body = .block statements)
      (eq : new = { old with members := old.members ++ [.constructor ctor] }) :
      Gains old new ctor.parameters statements
  | extended {index : Nat} {ctor : Constructor} {before : List Statement}
      {parameters : List Parameter} {statements : List Statement}
      (first : old.firstConstructor? = some (index, ctor)) (body : ctor.body = .block before)
      (eq : new = { old with
        members := old.members.set index (.constructor { ctor with
          parameters := ctor.parameters ++ parameters
          body := .block (before ++ statements) }) }) :
      Gains old new parameters statements

namespace ClassNode

variable {c : ClassNode} {plan : ConstructorPlan}

/-- Synthesis adds the parameters and assignments of the plan, and nothing else. -/
theorem gains_synthesize (h : c.plan? = some plan) :
    c.Gains (c.synthesize false) plan.parameters plan.assignments := by
  have hsynthesize : c.synthesize false = c.fulfil plan := by simp [synthesize, h]
  rw [hsynthesize]
  rcases plan?_cases h with ⟨hfirst, hplan⟩ | ⟨index, ctor, statements, hfirst, hbody, hplan⟩
  · have hindex : plan.constructorIndex = none := by rw [hplan]
    have hbody : (c.newConstructor plan).body = .block plan.assignments := rfl
    exact .appended hfirst hbody (by simp [fulfil, hindex])
  · have hindex : plan.constructorIndex = some index := by rw [hplan]
    refine .extended hfirst hbody ?_
    rw [fulfil_of_constructor hindex hfirst, Constructor.extend, hbody]

theorem map_target?_of_plan? (h : c.plan? = some plan) :
    plan.assignments.map Statement.target? =
      (plan.assignments.filterMap Statement.target?).map some := by
  rcases plan?_cases h with ⟨-, rfl⟩ | ⟨_, _, _, -, -, rfl⟩ <;>
    simp only [ConstructorPlan.filterMap_target?_missingAssignments] <;>
    simp [ConstructorPlan.missingAssignments, Function.comp_def, Statement.target?]

end ClassNode

namespace Finding

/-- A finding about a class: where the class is, and by name all that its synthesis adds. -/
structure Reports (shown : String) (text : Text) (c : ParsedClass) (f : Finding) : Prop where
  file : f.file = shown
  line : f.line = text.lineNumber c.layout.range.start
  className : f.className = c.node.name
  gains : ∃ parameters statements, c.node.Gains (c.node.synthesize false) parameters statements ∧
    f.missingParameters = parameters.map (·.name) ∧
    f.unassignedFields.map some = statements.map Statement.target?

theorem ofClass?_eq_none (shown : String) (text : Text) {c : ParsedClass}
    (h : c.node.isApplicable false = false) : ofClass? shown text c = none := by
  have hanalysis : c.node.analyze.isApplicable = false := by
    rw [ClassNode.analyze_isApplicable]
    simpa [ClassNode.isApplicable] using h
  simp [ofClass?, hanalysis]

theorem exists_ofClass?_eq_some (shown : String) (text : Text) {c : ParsedClass}
    (h : c.node.isApplicable false = true) :
    ∃ f, ofClass? shown text c = some f ∧ Reports shown text c f := by
  obtain ⟨plan, hplan⟩ := ClassNode.exists_plan_of_isApplicable h
  have hanalysis : c.node.analyze.isApplicable = true := by
    rw [ClassNode.analyze_isApplicable, hplan]
    rfl
  simp only [ofClass?, hanalysis, if_pos]
  refine ⟨_, rfl, rfl, rfl, rfl, plan.parameters, plan.assignments,
    ClassNode.gains_synthesize hplan, ?_, ?_⟩
  · simp [ClassNode.analyze, hplan]
  · simpa [ClassNode.analyze, hplan] using (ClassNode.map_target?_of_plan? hplan).symm

end Finding

namespace ParsedClass

variable {text : Text} {file : SourceFile} {c : ParsedClass}

/-- A class is resolved exactly when it lacks something. -/
theorem isOk_resolve (hfile : SourceFile.parse text = .ok file) (hc : c ∈ file.classes)
    (name : String) : (c.resolve false name text).isOk = c.node.isApplicable false := by
  cases happlicable : c.node.isApplicable false with
  | true =>
    obtain ⟨w, hw, -⟩ := exists_resolve hfile hc name happlicable
    rw [hw]
    rfl
  | false => rcases resolve_eq_error name text happlicable with h | h <;> rw [h] <;> rfl

end ParsedClass

namespace SourceFile

variable {text : Text} {file : SourceFile}

theorem forall₂_reports (shown : String) (text : Text) (cs : List ParsedClass) :
    List.Forall₂ (Finding.Reports shown text) (cs.filter fun c => c.node.isApplicable false)
      (cs.filterMap (Finding.ofClass? shown text)) := by
  induction cs with
  | nil => exact .nil
  | cons c rest ih =>
    cases happlicable : c.node.isApplicable false with
    | false =>
      have hnone := Finding.ofClass?_eq_none shown text happlicable
      rw [List.filter_cons_of_neg (by simp [happlicable]), List.filterMap_cons_none hnone]
      exact ih
    | true =>
      obtain ⟨f, hf, hreports⟩ := Finding.exists_ofClass?_eq_some shown text happlicable
      rw [List.filter_cons_of_pos (by simp [happlicable]), List.filterMap_cons_some hf]
      exact .cons hreports ih

theorem findings_eq_nil_iff (shown : String) :
    file.findings shown text = [] ↔ ∀ c ∈ file.classes, c.node.isApplicable false = false := by
  have hreports := forall₂_reports shown text file.classes
  rw [← List.length_eq_zero_iff, findings, ← hreports.length_eq, List.length_eq_zero_iff,
    List.filter_eq_nil_iff]
  simp

/-- Visiting a text adds to a report one finding for each class that can be resolved, in the order
of the classes. It names exactly the parameters and the fields that resolving the class adds to the
constructor. There is no finding exactly when there is nothing to resolve in the whole file. -/
theorem findings_agree (text : Text) :
    ∃ file, parse text = .ok file ∧ ∀ shown path : String,
      Visit.read shown path (.text text) = .ok ⟨shown, path, some (text, file)⟩ ∧
      (∀ root earlier,
        (Report.ofVisits root (earlier ++ [⟨shown, path, some (text, file)⟩])).findings =
          (Report.ofVisits root earlier).findings ++ file.findings shown text) ∧
      ∀ name : String,
        List.Forall₂ (Finding.Reports shown text)
          (file.classes.filter fun c => (c.resolve false name text).isOk)
          (file.findings shown text) ∧
        (file.findings shown text = [] ↔ file.resolveEvery name text = .error .notApplicable) := by
  obtain ⟨file, hfile⟩ := exists_parse text
  refine ⟨file, hfile, fun shown path => ⟨?_, fun root earlier => ?_, fun name => ⟨?_, ?_⟩⟩⟩
  · simp only [Visit.read, hfile]
    rfl
  · simp [Report.ofVisits, Visit.findings]
  · have hfilter : (file.classes.filter fun c => (c.resolve false name text).isOk) =
        file.classes.filter fun c => c.node.isApplicable false :=
      List.filter_congr fun c hc => ParsedClass.isOk_resolve hfile hc name
    rw [hfilter]
    exact forall₂_reports shown text file.classes
  · rw [findings_eq_nil_iff, resolveEvery_eq_notApplicable_iff hfile]

end SourceFile

end ClassRefactor
