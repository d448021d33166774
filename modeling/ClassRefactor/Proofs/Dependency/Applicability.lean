import Mathlib.Tactic.TFAE
import ClassRefactor.Proofs.Dependency.Synthesis
import ClassRefactor.Proofs.Tree.Equality

/-!
# When a constructor is due

Whether a class lacks something is asked in four ways: outright, by looking for a plan, by the
summary for reports, and by comparing the class with what synthesis makes of it. The comparison
ignores white space, but a plan adds parameters, statements or a member, and so shows in it.
-/

namespace ClassRefactor

namespace ConstructorPlan

theorem nonempty?_eq_some_self {plan result : ConstructorPlan}
    (h : plan.nonempty? = some result) : result.nonempty? = some result := by
  have heq := eq_of_nonempty?_eq_some h
  rwa [← heq] at h

/-- A plan that was found to hold something holds a parameter or an assignment. -/
theorem ne_nil_of_nonempty? {plan : ConstructorPlan} (h : plan.nonempty? = some plan) :
    plan.parameters ≠ [] ∨ plan.assignments ≠ [] := by
  rw [← Decidable.not_and_iff_not_or_not, ← nonempty?_eq_none_iff, h]
  simp

/-- The targets of missing assignments are the fields that are not assigned. -/
theorem filterMap_target?_missingAssignments (assigned : List String)
    (candidates : List Candidate) :
    (missingAssignments assigned candidates).filterMap Statement.target? =
      (candidates.filter fun d => !assigned.contains d.fieldName).map Candidate.fieldName := by
  simp [missingAssignments, List.filterMap_map, Function.comp_def, Statement.target?]

/-- No missing assignment is lost when only its target is kept. -/
theorem filterMap_target?_eq_nil_iff {assigned : List String} {candidates : List Candidate} :
    (missingAssignments assigned candidates).filterMap Statement.target? = [] ↔
      missingAssignments assigned candidates = [] := by
  rw [filterMap_target?_missingAssignments]
  simp [missingAssignments]

end ConstructorPlan

namespace Constructor

variable {ctor : Constructor} {statements : List Statement} {plan : ConstructorPlan}

/-- An extension by a plan that holds something is longer in its parameters or statements. -/
theorem extend_longer (hbody : ctor.body = .block statements)
    (hplan : plan.nonempty? = some plan) :
    ∃ extended, (ctor.extend plan).body = .block extended ∧
      ((ctor.extend plan).parameters.length ≠ ctor.parameters.length ∨
        extended.length ≠ statements.length) := by
  refine ⟨statements ++ plan.assignments, by simp [extend, hbody], ?_⟩
  simpa [extend] using ConstructorPlan.ne_nil_of_nonempty? hplan

/-- A constructor differs from its extension, unless the plan is empty. -/
theorem beq_extend (hbody : ctor.body = .block statements)
    (hplan : plan.nonempty? = some plan) :
    (Member.constructor ctor == (Member.constructor ctor).extend plan) = false := by
  obtain ⟨extended, hext, hlonger⟩ := extend_longer hbody hplan
  rw [Bool.eq_false_iff]
  intro heq
  have := lengths_eq_of_beq heq hbody hext
  omega

theorem extend_beq (hbody : ctor.body = .block statements)
    (hplan : plan.nonempty? = some plan) :
    ((Member.constructor ctor).extend plan == Member.constructor ctor) = false := by
  obtain ⟨extended, hext, hlonger⟩ := extend_longer hbody hplan
  rw [Bool.eq_false_iff]
  intro heq
  have := lengths_eq_of_beq heq hext hbody
  omega

end Constructor

/-- A list differs from itself with one element changed for the comparison to see. -/
theorem beq_modify_eq_false {α : Type} [BEq α] {as : List α} {index : Nat} {a : α} (f : α → α)
    (ha : as[index]? = some a) (hne : (f a == a) = false) :
    (as.modify index f == as) = false := by
  induction as generalizing index with
  | nil => simp at ha
  | cons first rest ih =>
    cases index with
    | zero =>
      obtain rfl : first = a := by simpa using ha
      simp [hne]
    | succ index =>
      have := @ih index (by simpa using ha)
      simp [this]

namespace ClassNode

variable {c : ClassNode} {plan : ConstructorPlan}

theorem exists_plan_of_isApplicable (h : c.isApplicable false = true) :
    ∃ plan, c.plan? = some plan := by
  apply Option.isSome_iff_exists.mp
  simpa [isApplicable] using h

theorem nonempty?_of_plan? (h : c.plan? = some plan) : plan.nonempty? = some plan := by
  unfold plan? at h
  split at h
  · exact ConstructorPlan.nonempty?_eq_some_self h
  · split at h
    · exact ConstructorPlan.nonempty?_eq_some_self h
    · cases h
    · cases h

/-- The additions of a plan show in the members. -/
theorem members_fulfil_beq (h : c.plan? = some plan) :
    ((c.fulfil plan).members == c.members) = false := by
  rcases plan?_cases h with ⟨-, hplan⟩ | ⟨index, ctor, statements, hctor, hbody, hplan⟩
  · have hindex : plan.constructorIndex = none := by rw [hplan]
    rw [Bool.eq_false_iff]
    intro heq
    have hlen := List.length_eq_of_beq heq
    simp [fulfil, hindex] at hlen
  · have hindex : plan.constructorIndex = some index := by rw [hplan]
    simp only [fulfil, hindex]
    exact beq_modify_eq_false _ (firstConstructor?_spec hctor)
      (Constructor.extend_beq hbody (nonempty?_of_plan? h))

theorem fulfil_beq (h : c.plan? = some plan) : (c.fulfil plan == c) = false := by
  have hmembers := members_fulfil_beq h
  rw [Bool.eq_false_iff] at hmembers ⊢
  intro heq
  have heq : instBEqClassNode.beq (c.fulfil plan) c = true := heq
  simp only [instBEqClassNode.beq, Bool.and_eq_true] at heq
  exact hmembers heq.2.2.2.2

/-- The summary of a class tells whether there is a plan. -/
theorem analyze_isApplicable (c : ClassNode) : c.analyze.isApplicable = c.plan?.isSome := by
  cases h : c.plan? with
  | none => simp [Analysis.isApplicable, analyze, h]
  | some plan =>
    -- Some parameter or some assignment is missing, and each shows in the summary by its name.
    have hne := ConstructorPlan.ne_nil_of_nonempty? (nonempty?_of_plan? h)
    have hnames : plan.assignments.filterMap Statement.target? = [] ↔ plan.assignments = [] := by
      rcases plan?_cases h with ⟨-, rfl⟩ | ⟨_, _, _, -, -, rfl⟩ <;>
        exact ConstructorPlan.filterMap_target?_eq_nil_iff
    have hshown : plan.parameters ≠ [] ∨ plan.assignments.filterMap Statement.target? ≠ [] := by
      rwa [Ne, Ne, hnames]
    simp only [Analysis.isApplicable, analyze, h, Option.elim_some, Option.isSome_some,
      Bool.or_eq_true, List.isEmpty_map, Bool.not_eq_true', List.isEmpty_eq_false_iff]
    exact hshown

/-- All four ways to ask whether a constructor is due agree on every class. A cancelled question is
answered in the negative, and a cancelled synthesis returns the class. -/
theorem applicability_agrees (c : ClassNode) :
    [c.isApplicable false = true, c.plan?.isSome = true, c.analyze.isApplicable = true,
        (c.synthesize false != c) = true].TFAE ∧
      c.isApplicable true = false ∧ c.synthesize true = c := by
  refine ⟨?_, rfl, rfl⟩
  have happlicable : c.isApplicable false = c.plan?.isSome := rfl
  have hchanged : (c.synthesize false != c) = c.plan?.isSome := by
    cases h : c.plan? with
    | none => simp [synthesize, h, bne]
    | some plan => simp [synthesize, h, bne, fulfil_beq h]
  rw [happlicable, analyze_isApplicable, hchanged]
  tfae_finish

end ClassNode

end ClassRefactor
