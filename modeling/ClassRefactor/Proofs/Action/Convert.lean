import ClassRefactor.Proofs.Action.Resolve
import ClassRefactor.Proofs.Edit.Apart

/-!
# Converting a method replaces its lead

A conversion changes the modifiers and the return type of a method. Both stand before its name, so
one edit of what stands there is enough.
-/

namespace ClassRefactor

namespace Method

variable (m : Method) (target : MethodMode)

/-- A conversion changes nothing but the modifiers and the return type. -/
theorem exists_convert_eq : ∃ modifiers returnType,
    m.convert false target = { m with modifiers, returnType } := by
  cases target with
  | sync => exact ⟨_, _, rfl⟩
  | async =>
    by_cases hasync : m.isAsync = true
    · exact ⟨m.modifiers, m.returnType, by simp [convert, toAsync, hasync]⟩
    · exact ⟨_, _, by simp only [convert, toAsync, hasync]; rfl⟩

@[simp] theorem mode_convert : (m.convert false target).mode = target := by
  cases target with
  | sync => simp [convert, toSync, mode, isAsync]
  | async =>
    by_cases hasync : m.isAsync = true
    · simp [convert, toAsync, mode, hasync]
    · simp [convert, toAsync, hasync]
      simp [mode, isAsync]

theorem splice?_convert (callable : CallableLayout) :
    m.splice? (m.convert false target) callable =
      some [⟨callable.lead, (m.convert false target).renderLead⟩] := by
  obtain ⟨modifiers, returnType, heq⟩ := m.exists_convert_eq target
  rw [heq]
  simp [splice?]

variable {m target}

/-- The comparison of trees sees a change of mode. -/
theorem beq_convert (h : m.mode ≠ target) :
    (Member.method m == .method (m.convert false target)) = false := by
  rw [Bool.eq_false_iff]
  intro heq
  apply h
  rw [← m.mode_convert target]
  unfold mode isAsync
  rw [modifiers_eq_of_beq heq]

end Method

namespace ParsedClass

variable {text : Text} {file : SourceFile} {c : ParsedClass}

/-- Where a method stands in the source. -/
theorem exists_layout_of_method (hfile : SourceFile.parse text = .ok file)
    (hc : c ∈ file.classes) {index : Nat} {m : Method}
    (hm : c.node.members[index]? = some (.method m)) :
    ∃ layout callable, c.layout.members[index]? = some layout ∧
      layout.shape.callable? = some callable ∧ text.isBoundary callable.lead.start = true ∧
      text.isBoundary callable.lead.stop = true ∧
      c.layout.range.start ≤ callable.lead.start ∧ callable.lead.start ≤ callable.lead.stop ∧
      callable.lead.stop ≤ c.layout.range.stop := by
  obtain ⟨layout, callable, hlayout, hcallable, -, -, hlaid, hread⟩ :=
    exists_callable_of_member hfile hc hm rfl
  refine ⟨layout, callable, hlayout, hcallable, Text.isBoundary_of_seam hread.lead.2.1,
    Text.isBoundary_of_seam hread.lead.2.2, ?_⟩
  have hmem := List.mem_of_getElem? hlayout
  have hclass := SourceFile.wellLaid_of_mem_classes hfile hc
  have hwithin := hclass.members.within layout.range (List.mem_map_of_mem hmem)
  have hsignature := (hclass.member layout hmem).signature
  have hlead := hlaid.lead
  have hheader := hclass.header_ordered
  rw [hclass.header_start, hclass.header_stop] at hheader
  rw [hclass.range_stop]
  omega

/-- A method that changes its mode gets one edit. -/
theorem convertMethod_eq {name : String} {index : Nat} {m : Method} {target : MethodMode}
    {layout : MemberLayout} {callable : CallableLayout}
    (hm : c.node.members[index]? = some (.method m)) (hmode : m.mode ≠ target)
    (hlayout : c.layout.members[index]? = some layout)
    (hcallable : layout.shape.callable? = some callable)
    (hlead : callable.lead.start ≤ callable.lead.stop) :
    c.convertMethod false name text index target =
      .ok ⟨[⟨name, callable.lead, (m.convert false target).renderLead⟩]⟩ := by
  have hset : c.node.members.set index (.method (m.convert false target)) =
      c.node.members.modify index fun _ => .method (m.convert false target) := by
    rw [List.modify_eq_set_getElem?]
    simp [hm]
  have hone : layout.splice text (c.style text) (.method m) (.method (m.convert false target)) =
      [⟨callable.lead, (m.convert false target).renderLead⟩] := by
    simp [MemberLayout.splice, hcallable, Method.splice?_convert]
  have hsplice : c.splice text { c.node with
      members := c.node.members.set index (.method (m.convert false target)) } =
      [⟨callable.lead, (m.convert false target).renderLead⟩] := by
    rw [hset, splice_modify text (fun _ => .method (m.convert false target)) hm hlayout
      (Method.beq_convert hmode), hone, List.mergeSort_singleton]
  unfold convertMethod
  simp only [hm, Bool.false_eq_true, ↓reduceIte, beq_iff_eq, hmode]
  exact editTo_eq hsplice (Replacement.apart_singleton name hlead)

/-- Without a method in another mode at the index, there is nothing to convert. -/
theorem convertMethod_eq_error (name : String) (text : Text) {cancelled : Bool} {index : Nat}
    {target : MethodMode}
    (h : cancelled = true ∨
      ∀ m, c.node.members[index]? = some (.method m) → m.mode = target) :
    c.convertMethod cancelled name text index target = .error .cancelled ∨
      c.convertMethod cancelled name text index target = .error .noMethodAtPosition ∨
      c.convertMethod cancelled name text index target = .error .notApplicable := by
  unfold convertMethod
  by_cases hcancelled : cancelled = true
  · exact .inl (if_pos hcancelled)
  · right
    rw [if_neg hcancelled]
    split
    · rename_i m hm
      have hmode := (h.resolve_left hcancelled) m hm
      exact .inr (if_pos (beq_iff_eq.mpr hmode))
    · exact .inl rfl

end ParsedClass

end ClassRefactor
