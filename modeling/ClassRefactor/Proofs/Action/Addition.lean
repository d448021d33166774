import ClassRefactor.Proofs.Action.Resolve
import ClassRefactor.Proofs.Edit.Apart

/-!
# Where the additions to a class go

The edits that resolve a class are of three kinds. A class on one line without a constructor is laid
out anew, from the end of its header to its closing brace. Otherwise what is new goes before a
closing brace, that of the block of the first constructor or of the class, and new parameters go
after the last one. All of it lies within the class.
-/

namespace ClassRefactor

/-- A cell in a stretch of white space. -/
theorem Text.isWhite_of_strip_slice {t : Text} {i j k : Nat} {c : Char}
    (hi : t.isBoundary i = true) (hj : t.isBoundary j = true)
    (hwhite : (t.slice i j).strip = []) (hik : i ≤ k) (hkj : k < j)
    (hc : t.cells[k]? = some c) : isWhite c = true := by
  refine Text.strip_eq_nil_iff.mp hwhite c ?_
  rw [← Text.mem_cells, Text.cells_slice hi hj (by omega), List.mem_iff_getElem?]
  refine ⟨k - i, ?_⟩
  rw [List.getElem?_take_of_lt (by omega), List.getElem?_drop, Nat.add_sub_cancel' hik, hc]

namespace ParsedClass

variable {text : Text} {file : SourceFile} {c : ParsedClass}

/-- The first constructor of a class and its block, as they stand in the source. -/
def constructorParts? (c : ParsedClass) : Option (CallableLayout × BlockLayout) := do
  let (index, _) ← c.node.firstConstructor?
  let layout ← c.layout.members[index]?
  let callable ← layout.shape.callable?
  let block ← callable.body.block?
  return (callable, block)

/-- The braces that the additions to a class go between. -/
def braces (c : ParsedClass) : Range :=
  match c.constructorParts? with
  | none => ⟨c.layout.opening, c.layout.closing⟩
  | some (_, block) => ⟨block.opening, block.closing⟩

/-- Where the header of a class ends, white space left out. -/
def headerStop (c : ParsedClass) (text : Text) : Nat :=
  c.layout.header.start + (text.slice c.layout.header.start c.layout.opening).trimEnd.size

/-- A class on one line that is to get a constructor. -/
def IsRelaid (c : ParsedClass) (text : Text) : Prop :=
  c.node.firstConstructor? = none ∧ c.isOneLine text = true

/-- What an edit that resolves a class replaces. -/
inductive Addition (c : ParsedClass) (text : Text) (r : Replacement) : Prop
  | relaid (h : c.IsRelaid text) (hrange : r.range = ⟨c.headerStop text, c.layout.closing + 1⟩)
  | before (h : r.Inserts text c.braces.stop) (hafter : c.braces.start < r.range.start)
  | parameters {callable : CallableLayout} {block : BlockLayout}
      (h : c.constructorParts? = some (callable, block))
      (hrange : r.range = .emptyAt callable.parameterStop)

theorem constructorParts?_of_none (h : c.node.firstConstructor? = none) :
    c.constructorParts? = none := by
  simp [constructorParts?, h]

theorem braces_of_none (h : c.constructorParts? = none) :
    c.braces = ⟨c.layout.opening, c.layout.closing⟩ := by
  rw [braces, h]

theorem braces_of_some {callable : CallableLayout} {block : BlockLayout}
    (h : c.constructorParts? = some (callable, block)) :
    c.braces = ⟨block.opening, block.closing⟩ := by
  rw [braces, h]

theorem constructorParts?_spec {callable : CallableLayout} {block : BlockLayout}
    (h : c.constructorParts? = some (callable, block)) :
    ∃ layout ∈ c.layout.members, layout.shape.callable? = some callable ∧
      callable.body.block? = some block := by
  simp only [constructorParts?, Option.bind_eq_bind, Option.bind_eq_some_iff, Option.pure_def,
    Option.some.injEq, Prod.mk.injEq] at h
  obtain ⟨⟨index, ctor⟩, -, layout, hlayout, k, hk, b, hb, rfl, rfl⟩ := h
  exact ⟨layout, List.mem_of_getElem? hlayout, hk, hb⟩

/-- The braces lie within those of the class, and are its own or stand within them. -/
theorem braces_spec {cells : List Char} (hlaid : c.layout.WellLaid cells) :
    c.layout.opening ≤ c.braces.start ∧ c.braces.start < c.braces.stop ∧
      c.braces.stop ≤ c.layout.closing ∧ cells[c.braces.stop]? = some '}' := by
  cases hparts : c.constructorParts? with
  | none =>
    rw [braces_of_none hparts]
    exact ⟨Nat.le_refl _, hlaid.ordered, Nat.le_refl _, hlaid.closes⟩
  | some parts =>
    obtain ⟨callable, block⟩ := parts
    obtain ⟨layout, hmem, hcallable, hblock⟩ := constructorParts?_spec hparts
    rw [braces_of_some hparts]
    have hcallableLaid := (hlaid.member layout hmem).callable callable hcallable
    have hblockLaid := hcallableLaid.block block hblock
    have hwithin := hlaid.members.within layout.range (List.mem_map_of_mem hmem)
    have hsignature := (hlaid.member layout hmem).signature
    have hlead := hcallableLaid.lead
    have hbefore := hcallableLaid.lead_before
    have hparens := hcallableLaid.ordered
    have hafter := hblockLaid.after
    have hstop := hblockLaid.before
    refine ⟨?_, hblockLaid.ordered, ?_, hblockLaid.closes⟩
    · simp only
      omega
    · simp only
      omega

/-- New parameters go within the class. -/
theorem parameterStop_within (hfile : SourceFile.parse text = .ok file) (hc : c ∈ file.classes)
    {callable : CallableLayout} {block : BlockLayout}
    (h : c.constructorParts? = some (callable, block)) :
    text.isBoundary callable.parameterStop = true ∧
      c.layout.opening < callable.parameterStop ∧ callable.parameterStop ≤ callable.closing ∧
      callable.closing < block.opening := by
  obtain ⟨layout, hmem, hcallable, hblock⟩ := constructorParts?_spec h
  have hclass := SourceFile.wellLaid_of_mem_classes hfile hc
  have hlaid := (hclass.member layout hmem).callable callable hcallable
  have hread := ((SourceFile.readable_of_mem_classes hfile hc).members layout hmem).shape.callable
    hcallable
  obtain ⟨hboundary, hopening, hclosing⟩ := parameterStop_spec hlaid fun p hp =>
    Text.isBoundary_of_seam (hread.params p hp).range.2.2
  refine ⟨hboundary, ?_, hclosing, (hlaid.block block hblock).after⟩
  have hwithin := hclass.members.within layout.range (List.mem_map_of_mem hmem)
  have hsignature := (hclass.member layout hmem).signature
  have hlead := hlaid.lead
  have hbefore := hlaid.lead_before
  omega

theorem headerStop_spec (hc : c.Cuttable text) :
    text.isBoundary (c.headerStop text) = true ∧ c.layout.header.start ≤ c.headerStop text ∧
      c.headerStop text ≤ c.layout.opening ∧
      (text.slice (c.headerStop text) c.layout.opening).strip = [] := by
  have hle : c.layout.header.start ≤ c.layout.opening := by
    rw [← hc.laid.header_stop]
    exact hc.laid.header_ordered
  obtain ⟨a, b, d, htext, ha, hb⟩ := Text.split_at_boundaries hc.header hc.opening.1 hle
  have hslice : text.slice c.layout.header.start c.layout.opening = b := by
    rw [htext, ← ha, ← hb, Text.slice_append]
  obtain ⟨w, hw, hwhite⟩ := Text.exists_trimEnd_append b
  have hstop : c.headerStop text = (a ++ b.trimEnd).size := by
    rw [headerStop, hslice, Text.size_append, ha]
  have hopen : c.layout.opening = (a ++ b.trimEnd).size + w.size := by
    have hsize : b.size = b.trimEnd.size + w.size := by rw [← Text.size_append, ← hw]
    rw [Text.size_append]
    omega
  have hparts : text = a ++ b.trimEnd ++ w ++ d := by
    rw [List.append_assoc a, ← hw, htext]
  refine ⟨?_, Nat.le_add_right .., by omega, ?_⟩
  · rw [hstop]
    exact Text.isBoundary_iff.mpr ⟨_, w ++ d, by rw [hparts, List.append_assoc], rfl⟩
  · rw [hstop, hopen, hparts, Text.slice_append]
    exact hwhite

/-- Where the first constructor with a block stands: the parts of it are those of the class. -/
theorem constructorParts?_of_some (hfile : SourceFile.parse text = .ok file)
    (hc : c ∈ file.classes) {index : Nat} {ctor : Constructor} {statements : List Statement}
    (hfirst : c.node.firstConstructor? = some (index, ctor))
    (hbody : ctor.body = .block statements) :
    ∃ layout callable block, c.layout.members[index]? = some layout ∧
      layout.shape.callable? = some callable ∧ callable.body.block? = some block ∧
      c.constructorParts? = some (callable, block) ∧
      callable.WellLaid text.cells layout.signature layout.range ∧
      (∀ p ∈ callable.params, text.isBoundary p.range.stop = true) ∧
      ∀ r ∈ block.statements, text.isBoundary r.stop = true := by
  obtain ⟨layout, callable, block, hlayout, hcallable, hblock, -, hlaid, hps, hss⟩ :=
    exists_layout_of_constructor hfile hc (ClassNode.firstConstructor?_spec hfirst) hbody
  refine ⟨layout, callable, block, hlayout, hcallable, hblock, ?_, hlaid, hps, hss⟩
  simp [constructorParts?, hfirst, hlayout, hcallable, hblock]

theorem addition_of_no_constructor (hc : c.Cuttable text)
    (hfirst : c.node.firstConstructor? = none) (m : Member) :
    c.Addition text (if c.isOneLine text then c.expandOneLine text (c.style text) [m]
      else c.appendMembers text (c.style text) [m]) := by
  have hbraces := braces_of_none (constructorParts?_of_none hfirst)
  split
  · rename_i hline
    exact .relaid ⟨hfirst, hline⟩ rfl
  · obtain ⟨hinserts, hafter⟩ := appendMembers_inserts hc (c.style text) [m]
    exact .before (by rw [hbraces]; exact hinserts) (by rw [hbraces]; exact hafter)

/-- A class with a plan is resolved by one or two edits, each an addition to it. -/
theorem exists_additions (hfile : SourceFile.parse text = .ok file) (hc : c ∈ file.classes)
    (name : String) {plan : ConstructorPlan} (hplan : c.node.plan? = some plan) :
    ∃ rs : List Replacement, c.resolve false name text = .ok ⟨rs.map (Replacement.toEdit name)⟩ ∧
      TextEdit.Apart (rs.map (Replacement.toEdit name)) ∧ (rs.length = 1 ∨ rs.length = 2) ∧
      ∀ r ∈ rs, c.Addition text r := by
  have hcut := cuttable_of_mem_classes hfile hc
  rcases ClassNode.plan?_cases hplan with ⟨hfirst, hshape⟩ | ⟨index, ctor, ss, hfirst, hbody, hshape⟩
  · have hindex : plan.constructorIndex = none := by rw [hshape]
    have hadd := addition_of_no_constructor hcut hfirst
      (.constructor (c.node.newConstructor plan))
    obtain ⟨hapart, hresolve⟩ := resolve_eq_of_no_constructor hcut name hplan hindex
    refine ⟨[_], hresolve, hapart, .inl rfl, fun r hr => ?_⟩
    rw [List.mem_singleton.mp hr]
    exact hadd
  · have hindex : plan.constructorIndex = some index := by rw [hshape]
    obtain ⟨layout, callable, block, hlayout, hcallable, hblock, hparts, hlaid, hps, hss⟩ :=
      constructorParts?_of_some hfile hc hfirst hbody
    obtain ⟨hapart, hresolve⟩ := resolve_eq_of_constructor name hplan hindex
      (ClassNode.firstConstructor?_spec hfirst) hbody hlayout hcallable hblock hlaid hps hss
    refine ⟨_, hresolve, hapart, ?_, ?_⟩
    · have hne := ConstructorPlan.ne_nil_of_nonempty? (ClassNode.nonempty?_of_plan? hplan)
      unfold ConstructorPlan.replacements
      cases hp : plan.parameters <;> cases ha : plan.assignments <;> simp_all
    · have hstyle := c.blank_style text
      obtain ⟨s, hs, -⟩ := callable.appendParameters_spec text hstyle plan.parameters
      obtain ⟨hinserts, hafter, -⟩ := BlockLayout.appendStatements_spec (hlaid.block block hblock)
        hss hstyle plan.assignments
      have hbraces := braces_of_some hparts
      intro r hr
      simp only [ConstructorPlan.replacements, List.mem_append] at hr
      rcases hr with hr | hr
      · split at hr
        · cases hr
        · rw [List.mem_singleton.mp hr, hs]
          exact .parameters hparts rfl
      · split at hr
        · cases hr
        · rw [List.mem_singleton.mp hr]
          exact .before (by rw [hbraces]; exact hinserts) (by rw [hbraces]; exact hafter)

/-- An addition replaces a range of the class, cut at boundaries of the text. -/
theorem Addition.bounds (hfile : SourceFile.parse text = .ok file) (hc : c ∈ file.classes)
    {r : Replacement} (h : c.Addition text r) :
    (text.isBoundary r.range.start = true ∧ text.isBoundary r.range.stop = true) ∧
      c.layout.range.start ≤ r.range.start ∧ r.range.start ≤ r.range.stop ∧
      r.range.stop ≤ c.layout.range.stop := by
  have hcut := cuttable_of_mem_classes hfile hc
  obtain ⟨hheader, hordered, hend⟩ := hcut.range_ordered
  obtain ⟨hopening, hbraces, hclosing, -⟩ := braces_spec hcut.laid
  rw [hend]
  cases h with
  | relaid _ hrange =>
    obtain ⟨hboundary, hstart, hstop, -⟩ := headerStop_spec hcut
    rw [hcut.laid.header_start] at hstart
    rw [hrange]
    exact ⟨⟨hboundary, hcut.closing.2⟩, hstart, by simp only; omega, Nat.le_refl _⟩
  | before hinserts hafter =>
    have := hinserts.before
    exact ⟨⟨hinserts.start, hinserts.stop⟩, by omega, hinserts.ordered, by omega⟩
  | @parameters callable block hparts hrange =>
    obtain ⟨hboundary, hinside, hstop, hblock⟩ := parameterStop_within hfile hc hparts
    rw [braces_of_some hparts] at hbraces hclosing
    simp only at hbraces hclosing
    rw [hrange]
    refine ⟨⟨hboundary, hboundary⟩, ?_⟩
    simp only [Range.emptyAt]
    omega

end ParsedClass

end ClassRefactor
