import ClassRefactor.Proofs.Dependency.Synthesis

/-!
# What synthesis adds

Synthesis adds to a class what its first constructor lacks, or a constructor if it has none, and
leaves everything else alone. What it adds is said here candidate by candidate: a parameter for each
whose name is not taken, and an assignment for each whose field is not assigned yet.
-/

namespace ClassRefactor

/-- The parameter that a dependency is passed by. -/
def Candidate.parameter (d : Candidate) : Parameter :=
  { type := d.fieldType, name := d.parameterName }

/-- The statement that keeps a dependency that was passed. -/
def Candidate.assignment (d : Candidate) : Statement := .assignment d.fieldName d.parameterName

/-- A constructor that receives and assigns every variable of every read-only field of a class. -/
structure Constructor.Serves (k : Constructor) (c : ClassNode) : Prop where
  receives : ∀ f ∈ c.fields, f.isReadonly = true → ∀ v ∈ f.declarators,
    ∃ p ∈ k.parameters, p.name = parameterNameOf v.name
  assigns : ∀ f ∈ c.fields, f.isReadonly = true → ∀ v ∈ f.declarators,
    ∃ value, Statement.assignment v.name value ∈ k.body.statements

namespace ConstructorPlan

theorem missingParameters_eq (existing : List String) (candidates : List Candidate) :
    missingParameters existing candidates =
      (candidates.filter fun d => d.parameterName ∉ existing).map Candidate.parameter := by
  simp [missingParameters, Candidate.parameter]

theorem missingAssignments_eq (assigned : List String) (candidates : List Candidate) :
    missingAssignments assigned candidates =
      (candidates.filter fun d => d.fieldName ∉ assigned).map Candidate.assignment := by
  simp [missingAssignments, Candidate.assignment]

theorem missingParameters_nil (candidates : List Candidate) :
    missingParameters [] candidates = candidates.map Candidate.parameter := by
  rw [missingParameters_eq, List.filter_eq_self.mpr (by simp)]

theorem missingAssignments_nil (candidates : List Candidate) :
    missingAssignments [] candidates = candidates.map Candidate.assignment := by
  rw [missingAssignments_eq, List.filter_eq_self.mpr (by simp)]

end ConstructorPlan

theorem Statement.eq_assignment_of_target? {s : Statement} {target : String}
    (h : s.target? = some target) : ∃ value, s = .assignment target value := by
  cases s with
  | assignment name value => exact ⟨value, by rw [Option.some.inj h]⟩
  | other text => cases h

namespace ClassNode

variable {c : ClassNode}

/-- Each variable of a read-only field is a dependency. -/
theorem mem_candidates {f : Field} (hf : f ∈ c.fields) (hreadonly : f.isReadonly = true)
    {v : FieldVariable} (hv : v ∈ f.declarators) :
    (⟨f.type, v.name, parameterNameOf v.name⟩ : Candidate) ∈ c.candidates :=
  List.mem_flatMap.mpr ⟨f, List.mem_filter.mpr ⟨hf, hreadonly⟩, List.mem_map_of_mem hv⟩

variable {k : Constructor} {existing : List String} {before : List Statement}

/-- With the missing parameters, a constructor has one for each dependency. -/
theorem exists_parameter
    (hparameters : k.parameters.map (·.name) =
      existing ++ (ConstructorPlan.missingParameters existing c.candidates).map (·.name))
    {d : Candidate} (hd : d ∈ c.candidates) : ∃ p ∈ k.parameters, p.name = d.parameterName := by
  have hname := ConstructorPlan.parameterName_mem existing hd
  rw [← hparameters] at hname
  exact List.mem_map.mp hname

/-- A constructor with what it lacked serves its class. -/
theorem serves_of_completed
    (hparameters : k.parameters.map (·.name) =
      existing ++ (ConstructorPlan.missingParameters existing c.candidates).map (·.name))
    (hbody : k.body = .block (before ++
      ConstructorPlan.missingAssignments (before.filterMap Statement.target?) c.candidates)) :
    k.Serves c where
  receives _ hf hreadonly _ hv := exists_parameter hparameters (mem_candidates hf hreadonly hv)
  assigns f hf hreadonly v hv := by
    have htarget := ConstructorPlan.fieldName_mem (before.filterMap Statement.target?)
      (mem_candidates hf hreadonly hv)
    rw [← List.filterMap_append] at htarget
    obtain ⟨s, hs, hname⟩ := List.mem_filterMap.mp htarget
    obtain ⟨value, rfl⟩ := Statement.eq_assignment_of_target? hname
    exact ⟨value, by rwa [hbody]⟩

/-- What a missing assignment assigns is a parameter of the completed constructor. -/
theorem value_of_missing {assigned : List String}
    (hparameters : k.parameters.map (·.name) =
      existing ++ (ConstructorPlan.missingParameters existing c.candidates).map (·.name))
    {s : Statement} (hs : s ∈ ConstructorPlan.missingAssignments assigned c.candidates) :
    ∃ target, ∃ p ∈ k.parameters, s = .assignment target p.name := by
  rw [ConstructorPlan.missingAssignments_eq] at hs
  obtain ⟨d, hd, rfl⟩ := List.mem_map.mp hs
  obtain ⟨p, hp, hname⟩ := exists_parameter hparameters (List.mem_filter.mp hd).1
  exact ⟨d.fieldName, p, hp, by rw [hname]; rfl⟩

/-- The first constructor after synthesis: the statements it had, then those that were added; it
serves the class, and each added statement assigns one of its parameters. -/
theorem exists_serving {plan : ConstructorPlan} (h : c.plan? = some plan) :
    ∃ index k added, (c.synthesize false).firstConstructor? = some (index, k) ∧
      k.body = .block ((c.firstConstructor?.elim [] fun first => first.2.body.statements) ++ added) ∧
      k.Serves c ∧ ∀ s ∈ added, ∃ target, ∃ p ∈ k.parameters, s = .assignment target p.name := by
  have hsynthesize : c.synthesize false = c.fulfil plan := by simp [synthesize, h]
  rw [hsynthesize]
  rcases plan?_cases h with ⟨hfirst, hplan⟩ | ⟨index, ctor, statements, hfirst, hbody, hplan⟩
  · have hparameters : (c.newConstructor plan).parameters.map (·.name) =
        [] ++ (ConstructorPlan.missingParameters [] c.candidates).map (·.name) := by
      simp [newConstructor, hplan]
    have hbody : (c.newConstructor plan).body =
        .block ([] ++ ConstructorPlan.missingAssignments [] c.candidates) := by
      simp [newConstructor, hplan]
    refine ⟨c.members.length, c.newConstructor plan, plan.assignments,
      firstConstructor?_fulfil_of_none (by rw [hplan]) hfirst, ?_,
      serves_of_completed hparameters hbody, fun s hs => ?_⟩
    · rw [hfirst]
      rfl
    · rw [hplan] at hs
      exact value_of_missing hparameters hs
  · have hparameters : (ctor.extend plan).parameters.map (·.name) =
        ctor.parameters.map (·.name) ++ (ConstructorPlan.missingParameters
          (ctor.parameters.map (·.name)) c.candidates).map (·.name) := by
      simp [Constructor.extend, hplan]
    have hextended : (ctor.extend plan).body = .block (statements ++ plan.assignments) := by
      simp [Constructor.extend, hbody]
    have hcompleted : (ctor.extend plan).body = .block (statements ++
        ConstructorPlan.missingAssignments (statements.filterMap Statement.target?)
          c.candidates) := by
      rw [hextended, hplan]
    refine ⟨index, ctor.extend plan, plan.assignments,
      firstConstructor?_fulfil_of_some (by rw [hplan]) hfirst, ?_,
      serves_of_completed hparameters hcompleted, fun s hs => ?_⟩
    · rw [hfirst, hextended]
      simp [hbody, Body.statements]
    · rw [hplan] at hs
      exact value_of_missing hparameters hs

/-- An existing constructor is extended in its place, and no other member changes. -/
theorem synthesize_of_constructor {plan : ConstructorPlan} (h : c.plan? = some plan) {index : Nat}
    {ctor : Constructor} (hfirst : c.firstConstructor? = some (index, ctor)) :
    ∃ k statements, ctor.body = .block statements ∧
      k = { ctor with
        parameters := ctor.parameters ++
          (c.candidates.filter fun d => d.parameterName ∉ ctor.parameters.map (·.name)).map
            Candidate.parameter
        body := .block (statements ++
          (c.candidates.filter fun d => d.fieldName ∉ statements.filterMap Statement.target?).map
            Candidate.assignment) } ∧
      c.synthesize false = { c with members := c.members.set index (.constructor k) } ∧
      (c.synthesize false).firstConstructor? = some (index, k) := by
  have hsynthesize : c.synthesize false = c.fulfil plan := by simp [synthesize, h]
  rcases plan?_cases h with ⟨hnone, -⟩ | ⟨index', ctor', statements, hsome, hbody, hplan⟩
  · rw [hfirst] at hnone
    cases hnone
  · rw [hfirst] at hsome
    obtain ⟨rfl, rfl⟩ := Prod.mk.inj (Option.some.inj hsome)
    have hindex : plan.constructorIndex = some index := by rw [hplan]
    refine ⟨ctor.extend plan, statements, hbody, ?_, ?_, ?_⟩
    · rw [Constructor.extend, hbody, hplan, ConstructorPlan.missingParameters_eq,
        ConstructorPlan.missingAssignments_eq]
    · rw [hsynthesize, fulfil_of_constructor hindex hfirst]
    · rw [hsynthesize, firstConstructor?_fulfil_of_some hindex hfirst]

/-- A class without a constructor is given one at its end. -/
theorem synthesize_of_no_constructor {plan : ConstructorPlan} (h : c.plan? = some plan)
    (hfirst : c.firstConstructor? = none) :
    ∃ k, k = ({
        name := c.name
        modifiers := ["public"]
        parameters := c.candidates.map Candidate.parameter
        body := .block (c.candidates.map Candidate.assignment) } : Constructor) ∧
      c.synthesize false = { c with members := c.members ++ [.constructor k] } ∧
      (c.synthesize false).firstConstructor? = some (c.members.length, k) := by
  have hsynthesize : c.synthesize false = c.fulfil plan := by simp [synthesize, h]
  rcases plan?_cases h with ⟨-, hplan⟩ | ⟨index, ctor, statements, hsome, -, -⟩
  · have hindex : plan.constructorIndex = none := by rw [hplan]
    refine ⟨c.newConstructor plan, ?_, ?_, ?_⟩
    · rw [newConstructor, hplan, ConstructorPlan.missingParameters_nil,
        ConstructorPlan.missingAssignments_nil]
    · rw [hsynthesize, fulfil, hindex]
    · rw [hsynthesize, firstConstructor?_fulfil_of_none hindex hfirst]
  · rw [hfirst] at hsome
    cases hsome

end ClassNode

end ClassRefactor
