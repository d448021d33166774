import Mathlib.Data.List.Basic
import ClassRefactor.Dependency.Plan

/-!
# Synthesis settles a class

After the additions of a plan, the first constructor of a class receives and assigns every
dependency, so no further plan is left. The dependencies themselves are those of the class before,
since neither the constructor nor its statements are fields.
-/

namespace ClassRefactor

namespace ConstructorPlan

theorem missingParameters_eq_nil_iff {existing : List String} {candidates : List Candidate} :
    missingParameters existing candidates = [] ↔
      ∀ d ∈ candidates, d.parameterName ∈ existing := by
  simp [missingParameters, List.filter_eq_nil_iff]

theorem missingAssignments_eq_nil_iff {assigned : List String} {candidates : List Candidate} :
    missingAssignments assigned candidates = [] ↔ ∀ d ∈ candidates, d.fieldName ∈ assigned := by
  simp [missingAssignments, List.filter_eq_nil_iff]

theorem nonempty?_eq_none_iff {plan : ConstructorPlan} :
    plan.nonempty? = none ↔ plan.parameters = [] ∧ plan.assignments = [] := by
  simp [nonempty?]

theorem eq_of_nonempty?_eq_some {plan result : ConstructorPlan}
    (h : plan.nonempty? = some result) : result = plan := by
  unfold nonempty? at h
  split at h
  · cases h
  · exact (Option.some.inj h).symm

/-- The given names and those of the missing parameters name a parameter for every candidate. -/
theorem parameterName_mem (existing : List String) {candidates : List Candidate} {d : Candidate}
    (hd : d ∈ candidates) :
    d.parameterName ∈ existing ++ (missingParameters existing candidates).map (·.name) := by
  by_cases h : d.parameterName ∈ existing
  · exact List.mem_append_left _ h
  · apply List.mem_append_right
    simp only [missingParameters, List.map_map, List.mem_map, List.mem_filter]
    exact ⟨d, ⟨hd, by simpa using h⟩, rfl⟩

/-- The given fields and the targets of the missing assignments are all that candidates name. -/
theorem fieldName_mem (assigned : List String) {candidates : List Candidate} {d : Candidate}
    (hd : d ∈ candidates) :
    d.fieldName ∈
      assigned ++ (missingAssignments assigned candidates).filterMap Statement.target? := by
  by_cases h : d.fieldName ∈ assigned
  · exact List.mem_append_left _ h
  · apply List.mem_append_right
    simp only [missingAssignments, List.mem_filterMap, List.mem_map, List.mem_filter]
    exact ⟨_, ⟨d, ⟨hd, by simpa using h⟩, rfl⟩, rfl⟩

end ConstructorPlan

@[simp] theorem Member.field?_extend (plan : ConstructorPlan) (m : Member) :
    (m.extend plan).field? = m.field? := by
  cases m <;> rfl

theorem Member.filterMap_field?_modify (plan : ConstructorPlan) (members : List Member)
    (index : Nat) :
    (members.modify index (Member.extend plan)).filterMap Member.field? =
      members.filterMap Member.field? := by
  induction members generalizing index with
  | nil => simp
  | cons m rest ih =>
    cases index with
    | zero => simp [List.filterMap_cons]
    | succ index => simp [List.filterMap_cons, ih]

namespace ClassNode

/-- Without a constructor among the first members, the first one is looked for in the rest. -/
theorem firstConstructorFrom_append {members : List Member} {start : Nat}
    (h : firstConstructorFrom start members = none) (more : List Member) :
    firstConstructorFrom start (members ++ more) =
      firstConstructorFrom (start + members.length) more := by
  induction members generalizing start with
  | nil => simp
  | cons m rest ih =>
    cases hm : m.constructor? with
    | some ctor => simp [firstConstructorFrom, hm] at h
    | none =>
      simp only [firstConstructorFrom, hm] at h
      simp only [List.cons_append, firstConstructorFrom, hm, ih h, List.length_cons]
      congr 1
      omega

/-- The first constructor is the member at its index. -/
theorem firstConstructorFrom_spec {members : List Member} {start index : Nat} {ctor : Constructor}
    (h : firstConstructorFrom start members = some (index, ctor)) :
    start ≤ index ∧ members[index - start]? = some (.constructor ctor) := by
  induction members generalizing start with
  | nil => simp [firstConstructorFrom] at h
  | cons m rest ih =>
    cases hm : m.constructor? with
    | some first =>
      simp only [firstConstructorFrom, hm, Option.some.injEq, Prod.mk.injEq] at h
      obtain ⟨rfl, rfl⟩ := h
      cases m <;> simp_all [Member.constructor?]
    | none =>
      simp only [firstConstructorFrom, hm] at h
      obtain ⟨hle, hget⟩ := ih h
      have hsub : index - start = index - (start + 1) + 1 := by omega
      refine ⟨by omega, ?_⟩
      rw [hsub, List.getElem?_cons_succ, hget]

theorem firstConstructorFrom_modify {members : List Member} {start index : Nat}
    {ctor : Constructor} (plan : ConstructorPlan)
    (h : firstConstructorFrom start members = some (index, ctor)) :
    firstConstructorFrom start (members.modify (index - start) (Member.extend plan)) =
      some (index, ctor.extend plan) := by
  induction members generalizing start with
  | nil => simp [firstConstructorFrom] at h
  | cons m rest ih =>
    cases hm : m.constructor? with
    | some first =>
      simp only [firstConstructorFrom, hm, Option.some.injEq, Prod.mk.injEq] at h
      obtain ⟨rfl, rfl⟩ := h
      cases m <;> simp_all [Member.constructor?, Member.extend, firstConstructorFrom]
    | none =>
      simp only [firstConstructorFrom, hm] at h
      have hle := (firstConstructorFrom_spec h).1
      have hsub : index - start = index - (start + 1) + 1 := by omega
      rw [hsub, List.modify_succ_cons]
      simp only [firstConstructorFrom, hm]
      exact ih h

theorem firstConstructor?_spec {c : ClassNode} {index : Nat} {ctor : Constructor}
    (h : c.firstConstructor? = some (index, ctor)) :
    c.members[index]? = some (.constructor ctor) := by
  simpa using (firstConstructorFrom_spec h).2

/-- The additions of a plan leave the fields alone, and so the dependencies. -/
@[simp] theorem candidates_fulfil (c : ClassNode) (plan : ConstructorPlan) :
    (c.fulfil plan).candidates = c.candidates := by
  have hfields : (c.fulfil plan).fields = c.fields := by
    unfold fulfil fields
    cases plan.constructorIndex with
    | none => simp [Member.field?]
    | some index => exact Member.filterMap_field?_modify plan c.members index
  simp [candidates, hfields]

/-- A class whose first constructor receives and assigns every dependency lacks nothing. -/
theorem plan?_eq_none_of_covered {c : ClassNode} {index : Nat} {ctor : Constructor}
    {statements : List Statement} (hctor : c.firstConstructor? = some (index, ctor))
    (hbody : ctor.body = .block statements)
    (hparams : ∀ d ∈ c.candidates, d.parameterName ∈ ctor.parameters.map (·.name))
    (htargets : ∀ d ∈ c.candidates, d.fieldName ∈ statements.filterMap Statement.target?) :
    c.plan? = none := by
  unfold plan?
  rw [hctor]
  simp only [hbody]
  rw [ConstructorPlan.nonempty?_eq_none_iff]
  exact ⟨ConstructorPlan.missingParameters_eq_nil_iff.mpr hparams,
    ConstructorPlan.missingAssignments_eq_nil_iff.mpr htargets⟩

/-- What a plan holds: everything for a new constructor, or what the first one lacks. -/
theorem plan?_cases {c : ClassNode} {plan : ConstructorPlan} (h : c.plan? = some plan) :
    (c.firstConstructor? = none ∧
      plan = { constructorIndex := none
               parameters := ConstructorPlan.missingParameters [] c.candidates
               assignments := ConstructorPlan.missingAssignments [] c.candidates }) ∨
    ∃ index ctor statements, c.firstConstructor? = some (index, ctor) ∧
      ctor.body = .block statements ∧
      plan = { constructorIndex := some index
               parameters := ConstructorPlan.missingParameters (ctor.parameters.map (·.name))
                 c.candidates
               assignments := ConstructorPlan.missingAssignments
                 (statements.filterMap Statement.target?) c.candidates } := by
  unfold plan? at h
  cases hctor : c.firstConstructor? with
  | none =>
    rw [hctor] at h
    exact .inl ⟨rfl, ConstructorPlan.eq_of_nonempty?_eq_some h⟩
  | some first =>
    obtain ⟨index, ctor⟩ := first
    rw [hctor] at h
    cases hbody : ctor.body with
    | block statements =>
      simp only [hbody] at h
      exact .inr ⟨index, ctor, statements, rfl, hbody, ConstructorPlan.eq_of_nonempty?_eq_some h⟩
    | expression text => simp [hbody] at h
    | absent => simp [hbody] at h

/-- The first constructor after a plan: the new one at the end, or the extended one in its place. -/
theorem firstConstructor?_fulfil_of_none {c : ClassNode} {plan : ConstructorPlan}
    (hindex : plan.constructorIndex = none) (hctor : c.firstConstructor? = none) :
    (c.fulfil plan).firstConstructor? = some (c.members.length, c.newConstructor plan) := by
  unfold fulfil firstConstructor?
  rw [hindex]
  refine (firstConstructorFrom_append hctor _).trans ?_
  simp [firstConstructorFrom, Member.constructor?]

theorem firstConstructor?_fulfil_of_some {c : ClassNode} {plan : ConstructorPlan} {index : Nat}
    {ctor : Constructor} (hindex : plan.constructorIndex = some index)
    (hctor : c.firstConstructor? = some (index, ctor)) :
    (c.fulfil plan).firstConstructor? = some (index, ctor.extend plan) := by
  unfold fulfil firstConstructor?
  rw [hindex]
  exact firstConstructorFrom_modify plan hctor

theorem fulfil_of_constructor {c : ClassNode} {plan : ConstructorPlan} {index : Nat}
    {ctor : Constructor} (hindex : plan.constructorIndex = some index)
    (hctor : c.firstConstructor? = some (index, ctor)) :
    c.fulfil plan =
      { c with members := c.members.set index (.constructor (ctor.extend plan)) } := by
  simp only [fulfil, hindex, List.modify_eq_set_getElem?, firstConstructor?_spec hctor]
  rfl

/-- A plan leaves nothing for a second one. -/
theorem plan?_fulfil {c : ClassNode} {plan : ConstructorPlan} (h : c.plan? = some plan) :
    (c.fulfil plan).plan? = none := by
  rcases plan?_cases h with ⟨hctor, hplan⟩ | ⟨index, ctor, statements, hctor, hbody, hplan⟩
  · have hindex : plan.constructorIndex = none := by rw [hplan]
    have hfirst := firstConstructor?_fulfil_of_none hindex hctor
    refine plan?_eq_none_of_covered hfirst rfl ?_ ?_ <;> intro d hd <;> rw [candidates_fulfil] at hd
    · simpa [newConstructor, hplan] using ConstructorPlan.parameterName_mem [] hd
    · simpa [hplan] using ConstructorPlan.fieldName_mem [] hd
  · have hindex : plan.constructorIndex = some index := by rw [hplan]
    have hfirst := firstConstructor?_fulfil_of_some hindex hctor
    have hblock : (ctor.extend plan).body = .block (statements ++ plan.assignments) := by
      simp [Constructor.extend, hbody]
    refine plan?_eq_none_of_covered hfirst hblock ?_ ?_ <;> intro d hd <;>
      rw [candidates_fulfil] at hd
    · simpa [Constructor.extend, hplan] using
        ConstructorPlan.parameterName_mem (ctor.parameters.map (·.name)) hd
    · simpa [hplan] using ConstructorPlan.fieldName_mem (statements.filterMap Statement.target?) hd

theorem plan?_synthesize (c : ClassNode) : (c.synthesize false).plan? = none := by
  unfold synthesize
  cases h : c.plan? with
  | none => simpa using h
  | some plan => simpa using plan?_fulfil h

/-- A class without a plan is left as it is. -/
theorem synthesize_of_plan?_eq_none {c : ClassNode} (cancelled : Bool) (h : c.plan? = none) :
    c.synthesize cancelled = c := by
  simp [synthesize, h]

/-- A second synthesis changes nothing, and finds nothing left to do. -/
theorem synthesize_idempotent (c : ClassNode) :
    (c.synthesize false).synthesize false = c.synthesize false ∧
      (c.synthesize false).plan? = none :=
  ⟨synthesize_of_plan?_eq_none false (plan?_synthesize c), plan?_synthesize c⟩

end ClassNode

end ClassRefactor
