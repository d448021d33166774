import ClassRefactor.Proofs.Exchange.Member
import ClassRefactor.Proofs.Source.Local
import ClassRefactor.Proofs.Tree.Content
import ClassRefactor.Proofs.Written.Parameter

/-!
# Reading a method with another lead

A method is read as it was, but for its modifiers and its return type, when others are printed in
front of its name.
-/

namespace ClassRefactor

/-- A callable with another lead is read as it was but for what the lead says. -/
theorem CallableLayout.readMethod_withLead {part whole : Source} {n : Nat}
    (h : part.Within whole n) {c : CallableLayout} {m : Method} (hm : c.readMethod part = .ok m)
    {lead result : Range} (modifiers : List String) (hlead : lead.start ≤ lead.stop) {t : TypeRef}
    (ht : whole.type result = .ok t) :
    ((c.shift n).withLead lead modifiers result).readMethod whole =
      .ok { m with modifiers, returnType := t } := by
  have hwhole := h.method c m hm
  simp only [readMethod, bind_eq_ok_iff] at hwhole
  obtain ⟨-, -, name, hname, typeParams, htypeParams, type, -, params, hparams, clause, hclause, body,
    hbody, heq⟩ := hwhole
  obtain rfl := Except.ok.inj heq
  simp only [readMethod, withLead, Range.checked, hlead, ↓reduceIte, hname, htypeParams, ht,
    hparams, hclause, hbody, bind, Except.bind, pure, Except.pure]

theorem MemberLayout.exists_method_of_read {s : Source} {layout : MemberLayout} {m : Method}
    (h : layout.read s = .ok (.method m)) :
    ∃ c, layout.shape = .method c ∧ c.readMethod s = .ok m := by
  obtain ⟨range, signature, shape⟩ := layout
  simp only [read, bind_eq_ok_iff] at h
  obtain ⟨-, -, -, -, h⟩ := h
  cases shape with
  | method c =>
    obtain ⟨m', hm', heq⟩ := bind_eq_ok_iff.mp h
    cases heq
    exact ⟨c, rfl, hm'⟩
  | field f =>
    obtain ⟨_, -, heq⟩ := bind_eq_ok_iff.mp h
    cases heq
  | constructor c =>
    obtain ⟨_, -, heq⟩ := bind_eq_ok_iff.mp h
    cases heq
  | other =>
    obtain ⟨_, -, heq⟩ := bind_eq_ok_iff.mp h
    cases heq

/-- What a method has printed in front of its name. -/
def leadText (modifiers : List String) (type : TypeRef) : Text :=
  (renderModifiers modifiers).toList ++ (type.render.toList ++ [' '])

theorem Method.toList_renderLead (m : Method) :
    m.renderLead.toList = leadText m.modifiers m.returnType := by
  simp [renderLead, leadText, String.toList_append]

theorem cells_leadText {ms : List String} (hms : ∀ m ∈ ms, m ∈ memberModifiers) (t : TypeRef) :
    Text.cells (leadText ms t) = printedLead ms t := by
  have hprinted : Printed (renderModifiers ms).toList := printed_renderModifiers (by decide) hms
  rw [leadText, Text.cells_append, Text.cells_append, hprinted.cells]
  rfl

/-- A printed lead is quiet, and begins with a modifier or with its type. -/
theorem quiet_leadText {ms : List String} (hms : ∀ m ∈ ms, m ∈ memberModifiers) {t : TypeRef}
    (ht : t.WellFormed) :
    leadText ms t ≠ [] ∧ (∀ c ∈ leadText ms t, isQuiet c = true) ∧
      (leadText ms t).head? ≠ some '*' := by
  have hprinted : Printed (renderModifiers ms).toList := printed_renderModifiers (by decide) hms
  obtain ⟨c, hc, hstart⟩ := head_printedLead hms ht
  rw [← cells_leadText hms, Text.head?_cells] at hc
  refine ⟨fun hnil => by simp [hnil] at hc, fun d hd => ?_, ?_⟩
  · simp only [leadText, List.mem_append, List.mem_singleton] at hd
    rcases hd with hd | hd | rfl
    · have := hprinted d hd
      simp only [isPrinted, Bool.and_eq_true] at this
      exact this.2
    · exact isQuiet_of_isTypeCell (ht.typeText.cells d hd)
    · decide
  · rw [hc]
    rintro heq
    obtain rfl := Option.some.inj heq
    rcases hstart with hident | hparen
    · exact absurd hident (by decide)
    · exact absurd hparen (by decide)

namespace Source

/-- A method in the parts that its layout falls into, with what is read in them. -/
structure MethodParts (u b f y : Source) (m : Method) : Prop where
  even : u.Even ∧ b.Even ∧ f.Even ∧ y.Even
  type : TypeRef.parse f.text = m.returnType
  modifiers : ∀ w ∈ m.modifiers, w ∈ memberModifiers
  rest : ∃ c, Code.MethodParts u.masked.cells b.masked.cells f.masked.cells y.masked.cells c ∧
    ∃ m₀, c.readMethod y = .ok m₀ ∧
      m = { m₀ with modifiers := m.modifiers, returnType := m.returnType }

/-- Every source that is read as a method falls into such parts. -/
theorem Sound.exists_methodParts {x : Source} (hx : x.Sound) (heven : x.Even) {className : Code}
    {m : Method} (h : x.member className = .ok (.method m)) :
    ∃ u b f y, x = u ++ (b ++ f) ++ y ∧ MethodParts u b f y m ∧
      ∃ k, (Code.memberLayout x.masked.cells className
          ⟨0, x.masked.cells.length⟩).shape = .method k ∧
        k.lead = ⟨u.masked.size, (u ++ (b ++ f)).masked.size⟩ := by
  obtain ⟨k, hshape, hread⟩ := MemberLayout.exists_method_of_read h
  obtain ⟨u', b', f', y', c, hcells, hparts, hk, hknown⟩ := Code.exists_methodParts hshape
  obtain ⟨d, hd, -⟩ := hparts.named.head
  have hpos : 0 < x.masked.cells.length := by
    have := List.length_pos_of_mem (List.mem_of_head? hd)
    rw [hcells, List.length_append]
    omega
  obtain ⟨-, -, hreadable⟩ := @Code.memberLayout_spec x.masked.cells className
    ⟨0, x.masked.cells.length⟩ _ hpos (Code.seam_zero _) (Code.seam_length _)
    (fun _ hnext => by simp at hnext) rfl
  have hfits := hreadable.shape.callable (c := k) (by rw [hshape]; rfl)
  have hlead : k.lead = ⟨u'.length, (u' ++ (b' ++ f')).length⟩ := by rw [hk]; rfl
  have hresult : k.result = ⟨u'.length + b'.length, (u' ++ (b' ++ f')).length⟩ := by rw [hk]; rfl
  have hseams := hfits.lead.2
  have hseam := hfits.result.2.1
  rw [hlead] at hseams
  rw [hresult] at hseam
  dsimp only at hseams hseam
  have hsum : (u' ++ (b' ++ f')).length = u'.length + b'.length + f'.length := by
    simp [Nat.add_assoc]
  have hleft : ∀ {s t : Source} {p : Nat}, Code.Seam (s ++ t).masked.cells p →
      p ≤ s.masked.size → Code.Seam s.masked.cells p := by
    intro s t p hp hle
    rw [masked_append, Text.cells_append, ← Nat.zero_add p] at hp
    exact Code.Seam.middle (a := []) hp (by simpa using hle)
  -- The source is cut before its name, its type and its modifiers.
  obtain ⟨l, y, rfl, hl, hy, hlsize⟩ := hx.exists_cut heven hseams.2
  obtain ⟨ub, f, rfl, hub, hf, hubsize⟩ := (hx.left hl).exists_cut hl (hleft hseam (by omega))
  obtain ⟨u, b, rfl, hu, hb, husize⟩ := ((hx.left hl).left hub).exists_cut hub
    (hleft (hleft hseams.1 (by omega)) (by omega))
  simp only [masked_append, Text.size_append, Text.cells_append] at hlsize hubsize hcells
  rw [List.append_assoc u.masked.cells] at hcells
  obtain ⟨hfront, rfl⟩ := List.append_inj hcells (by simp; omega)
  obtain ⟨rfl, hlead'⟩ := List.append_inj hfront (by simp; omega)
  obtain ⟨rfl, rfl⟩ := List.append_inj hlead' (by simp; omega)
  obtain ⟨m₀, hm₀, -⟩ := hparts.named.readable.exists_readMethod (hx.right hl hy)
  have hwithin := within_middle hl y empty
  rw [append_empty] at hwithin
  have hend : (u.masked.cells ++ (b.masked.cells ++ f.masked.cells)).length =
      (u ++ b ++ f).masked.size := by simp
  have htype : (u ++ b ++ f ++ y).type k.result = .ok (TypeRef.parse f.text) := by
    rw [hresult, hend, Text.length_cells, Text.length_cells, ← Text.size_append, ← masked_append]
    exact type_middle hub hf y
  have hrange : k.lead.start ≤ k.lead.stop := hfits.lead.1
  have hagain := CallableLayout.readMethod_withLead hwithin hm₀ k.modifiers hrange htype
  rw [← hend, hlead, hresult, ← hk, hread] at hagain
  obtain rfl := Except.ok.inj hagain
  refine ⟨u, b, f, y, by simp only [append_assoc], ⟨⟨hu, hb, hf, hy⟩, rfl, hknown, c, hparts, m₀,
    hm₀, rfl⟩, k, hshape, ?_⟩
  rw [hlead]
  simp

section

variable {u b f y : Source} {m : Method} (h : MethodParts u b f y m)
include h

/-- With other modifiers and another return type printed before its name, the method is read with
these. -/
theorem MethodParts.exchanged {ms : List String} (hms : ∀ w ∈ ms, w ∈ memberModifiers)
    {t : TypeRef} (ht : t.WellFormed) (className : Code) :
    (u ++ plain (leadText ms t) ++ y).member className =
      .ok (.method { m with modifiers := ms, returnType := t }) := by
  obtain ⟨hu, hb, hf, hy⟩ := h.even
  obtain ⟨c, hparts, m₀, hm₀, hm⟩ := h.rest
  obtain ⟨signature, hle, hlayout⟩ := hparts.exchanged hms ht className
  have hsize : (u.masked.cells ++ printedLead ms t).length =
      (u ++ plain (leadText ms t)).masked.size := by
    rw [← cells_leadText hms, ← Text.cells_append, Text.length_cells]
    rfl
  have hmods : (renderModifiers ms).toList.length =
      (plain (renderModifiers ms).toList).masked.size := by
    have hprinted : Printed (renderModifiers ms).toList := printed_renderModifiers (by decide) hms
    exact hprinted.size.symm
  have htype : (u ++ plain (leadText ms t) ++ y).type
      ⟨u.masked.cells.length + (renderModifiers ms).toList.length,
        (u.masked.cells ++ printedLead ms t).length⟩ = .ok t := by
    have hread := type_middle (hu.append (even_plain (renderModifiers ms).toList))
      (even_plain (t.render.toList ++ [' '])) y
    have hparse : TypeRef.parse (plain (t.render.toList ++ [' '])).text = t := by
      simpa [plain] using @TypeRef.Legible.parse_around t ht.legible [] [' '] (by simp) (by decide)
    rw [hparse, append_assoc u, ← plain_append, masked_append, Text.size_append, ← hmods,
      ← Text.length_cells u.masked] at hread
    rw [hsize]
    exact hread
  have hlead : Range.start ⟨u.masked.cells.length, (u.masked.cells ++ printedLead ms t).length⟩ ≤
      Range.stop ⟨u.masked.cells.length, (u.masked.cells ++ printedLead ms t).length⟩ := by simp
  have hread := CallableLayout.readMethod_withLead
    (within_middle (hu.append (even_plain (leadText ms t))) y empty) hm₀ ms hlead
    (by rw [append_empty]; exact htype)
  rw [append_empty, ← hsize] at hread
  have hcells : (u ++ plain (leadText ms t) ++ y).masked.cells =
      u.masked.cells ++ printedLead ms t ++ y.masked.cells := by
    rw [cells_masked, ← cells_leadText hms]
    rfl
  rw [member, memberAt, hcells, hlayout]
  have hsignature : u.masked.cells.length ≤ signature := hle
  simp only [MemberLayout.read, Range.checked, Nat.zero_le, hsignature, ↓reduceIte, hread, bind,
    Except.bind, pure, Except.pure]
  rw [hm]

end

end Source

end ClassRefactor
