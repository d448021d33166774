import ClassRefactor.Proofs.Exchange.Mask
import ClassRefactor.Proofs.Exchange.Method
import ClassRefactor.Proofs.Exchange.Reading
import ClassRefactor.Proofs.Source.File

/-!
# A file with the lead of a method exchanged

When another lead is printed in front of the name of a method, the file declares the classes that it
declared, and the class of the method has the node that it had, but for the modifiers and the return
type of the method. The return type must be well-formed, so that it holds no comment.
-/

namespace ClassRefactor

namespace Source

/-- The parts of a source around a lead whose type is quiet, as a scan reaches them. -/
theorem exists_leadMask {a b f c : Source} {text : Text}
    (heq : ofText text = a ++ (b ++ f) ++ c) (ha : a.Even) (hb : b.Even) (hf : f.Even)
    (hlast : ∀ d, a.masked.cells.getLast? = some d → d ≠ '"')
    (hmodifiers : Code.FrontBlanks (b.masked.cells ++ f.masked.cells) b.masked.cells f.masked.cells)
    (hhead : ∃ d, (b.masked.cells ++ f.masked.cells).head? = some d ∧ isLayoutBlank d = false)
    (htyped : f.masked.cells ≠ [])
    (hquiet : ∀ d ∈ f.text, isQuiet d = true) (hstar : f.text.head? ≠ some '*')
    (hname : ∃ d, c.masked.cells.head? = some d ∧ Code.isNameCell d = true) :
    ∃ s₀ s₁ s₂, LeadMask a.text b.text f.text c.text s₀ s₁ s₂ ∧
      Scan.start.mask a.text (b.text ++ (f.text ++ c.text)) = a.masked ∧
      s₁.mask f.text c.text = f.masked ∧ s₂.mask c.text [] = c.masked := by
  have htext : text = a.text ++ (b.text ++ (f.text ++ c.text)) := by
    simpa [ofText] using congrArg Source.text heq
  have hmasked : text.mask = a.masked ++ (b.masked ++ (f.masked ++ c.masked)) := by
    simpa [ofText] using congrArg Source.masked heq
  have hscan : text.mask = Scan.start.mask text [] := Scan.start.maskWith_modes text
  rw [hscan, htext, Scan.mask_append, Scan.mask_append, Scan.mask_append] at hmasked
  simp only [List.append_nil] at hmasked
  generalize h₀ : Scan.start.after a.text (b.text ++ (f.text ++ c.text)) = s₀ at hmasked
  generalize h₁ : s₀.after b.text (f.text ++ c.text) = s₁ at hmasked
  generalize h₂ : s₁.after f.text c.text = s₂ at hmasked
  obtain ⟨hmaskA, hrest⟩ := Text.append_inj hmasked ((Scan.size_mask ..).trans ha)
  obtain ⟨hmaskB, hrest⟩ := Text.append_inj hrest ((Scan.size_mask ..).trans hb)
  obtain ⟨hmaskF, hmaskC⟩ := Text.append_inj hrest ((Scan.size_mask ..).trans hf)
  refine ⟨s₀, s₁, s₂, ⟨h₀, h₁, h₂, ?_, ?_, ?_, hquiet, hstar, ?_, ?_⟩, hmaskA, hmaskF, hmaskC⟩
  · rw [hmaskA]
    exact hlast
  · rw [hmaskB]
    exact hmodifiers.2.1
  · rw [hmaskB]
    intro d hd
    obtain ⟨e, he, hblank⟩ := hhead
    rw [List.head?_append_of_ne_nil _ (by rintro hnil; rw [hnil] at hd; cases hd), hd] at he
    obtain rfl := Option.some.inj he
    exact hblank
  · rw [hmaskF]
    have hd := List.head?_eq_some_head htyped
    exact ⟨_, hd, hmodifiers.2.2 _ hd⟩
  · rw [hmaskC]
    exact hname

/-- Exchanging the lead for quiet text leaves the mask around it as it is. -/
theorem ofText_exchanged {a b f c : Source} {s₀ s₁ s₂ : Scan}
    (h : LeadMask a.text b.text f.text c.text s₀ s₁ s₂)
    (hmaskA : Scan.start.mask a.text (b.text ++ (f.text ++ c.text)) = a.masked)
    (hmaskC : s₂.mask c.text [] = c.masked) {t : Text} (hne : t ≠ [])
    (hquiet : ∀ d ∈ t, isQuiet d = true) (hstar : t.head? ≠ some '*') :
    ofText (a.text ++ t ++ c.text) = a ++ plain t ++ c := by
  have hexchanged := h.mask_exchanged hne hquiet hstar
  rw [hmaskA, hmaskC] at hexchanged
  show Source.mk _ _ = Source.mk _ _
  rw [List.append_assoc, hexchanged]
  simp [plain]

/-- A lead of a source that is exchanged for another. -/
structure LeadSwap (a b b' c : Source) : Prop extends Swap a b b' c where
  ends : ∃ n, Code.EndsAt a.masked.cells n
  old : Code.Lead b.masked.cells
  new : Code.Lead b'.masked.cells
  name : ∃ d, c.masked.cells.head? = some d ∧ Code.isNameCell d = true

namespace LeadSwap

variable {a b b' c : Source} (h : LeadSwap a b b' c)
include h

theorem lead_pos : 0 < b.masked.size := by
  obtain ⟨d, hd, -⟩ := h.old.head
  rw [← Text.length_cells]
  exact List.length_pos_of_mem (List.mem_of_head? hd)

theorem exists_swappable : ∃ n, Code.Swappable a.masked.cells b.masked.cells b'.masked.cells
    c.masked.cells n := by
  obtain ⟨n, hends⟩ := h.ends
  exact ⟨n, Code.passed_of_stackAfter h.old.closed _ n, Code.passed_of_stackAfter h.new.closed _ n,
    h.old.silent _ _, h.new.silent _ _, h.old.apart _, h.new.apart _, .inl hends⟩

theorem memberRanges_moved {start q : Nat} (hstart : start ≤ a.masked.size) (hpos : 0 < q)
    (hq : q ≤ c.masked.size) :
    List.Forall₂ (Range.Moved a.masked.cells b.masked.cells b'.masked.cells)
      (Code.memberRanges (a ++ b ++ c).masked.cells start ((a ++ b).masked.size + q))
      (Code.memberRanges (a ++ b' ++ c).masked.cells start ((a ++ b').masked.size + q)) := by
  have hheads : ∀ l : Code, l = b.masked.cells ∨ l = b'.masked.cells →
      ∃ d, l.head? = some d ∧ isLayoutBlank d = false := by
    intro l hl
    have hlead : Code.Lead l := by
      rcases hl with rfl | rfl
      · exact h.old
      · exact h.new
    obtain ⟨e, he, hsolid, -⟩ := hlead.head
    exact ⟨e, he, hsolid⟩
  have hstart' : start ≤ a.masked.cells.length := by rwa [Text.length_cells]
  have hmoved := Code.memberRanges_moved (h.old.alike h.new h.name) (.inr hheads) hpos
    (by rwa [Text.length_cells]) hstart'
  rw [cells_masked, cells_masked]
  simpa using hmoved

end LeadSwap

end Source

namespace SourceFile

/-- Where a method of a class stands in the source, in the parts that it falls into. -/
structure MethodAt (text : Text) (layout : ClassLayout) (k : Nat) (m : Method)
    (p u b f y q : Source) : Prop
    extends MemberAt text layout k (.method m) p (u ++ (b ++ f) ++ y) q where
  parts : Source.MethodParts u b f y m
  lead : ∃ l k', layout.members[k]? = some l ∧ l.shape.callable? = some k' ∧
    k'.lead = ⟨(p ++ u).masked.size, (p ++ u ++ (b ++ f)).masked.size⟩

theorem exists_methodAt {text : Text} {file : SourceFile} (hfile : parse text = .ok file)
    {c : ParsedClass} (hc : c ∈ file.classes) {k : Nat} {m : Method}
    (hm : c.node.members[k]? = some (.method m)) :
    ∃ p u b f y q, MethodAt text c.layout k m p u b f y q := by
  obtain ⟨p, x, q, h⟩ := exists_memberAt hfile hc hm
  obtain ⟨hp, hx, hq⟩ := h.even
  have hwhole := Source.sound_ofText text
  rw [h.eq] at hwhole
  obtain ⟨u, b, f, y, rfl, hparts, k', hshape, hlead⟩ :=
    (hwhole.middle hp hx).exists_methodParts hx h.member
  refine ⟨p, u, b, f, y, q, h, hparts, _, k'.shift p.masked.size, h.found, ?_, ?_⟩
  · change (MemberShape.shift _ _).callable? = _
    rw [hshape]
    rfl
  · simp only [CallableLayout.shift, hlead, Range.shift, Source.masked_append, Text.size_append]
    simp only [Nat.add_assoc]

section

variable {text : Text} {layout : ClassLayout} {k : Nat} {m : Method} {p u b f y q : Source}
  (h : MethodAt text layout k m p u b f y q)
  (hlayout : layout ∈ Code.classLayouts text.mask.cells) (hwf : m.returnType.WellFormed)
include h

/-- The source falls into what stands before the lead, the lead, and what stands behind it. -/
theorem MethodAt.eq_around : Source.ofText text = p ++ u ++ (b ++ f) ++ (y ++ q) := by
  rw [h.eq]
  simp only [Source.append_assoc]

theorem MethodAt.name_pos : 0 < y.masked.size := by
  obtain ⟨c, hparts, -⟩ := h.parts.rest
  obtain ⟨d, hd, -⟩ := hparts.named.head
  rw [← Text.length_cells]
  exact List.length_pos_of_mem (List.mem_of_head? hd)

/-- The name of the method stands behind its lead. -/
theorem MethodAt.exists_name :
    ∃ d, (y ++ q).masked.cells.head? = some d ∧ Code.isNameCell d = true := by
  obtain ⟨c, hparts, -⟩ := h.parts.rest
  obtain ⟨d, hd, hname⟩ := hparts.named.head
  refine ⟨d, ?_, hname⟩
  rw [Source.masked_append, Text.cells_append, List.head?_append, hd]
  rfl

include hwf in
/-- No bracket opens where the attributes of a method end. -/
theorem MethodAt.head_ne : text.mask.cells[(p ++ u).masked.size]? ≠ some '[' := by
  intro hbracket
  obtain ⟨c, hparts, -⟩ := h.parts.rest
  obtain ⟨-, hb, hf, -⟩ := h.parts.even
  have hsource := Text.getElem?_cells_of_mask hbracket (by decide) (by decide)
  have hsize : (p ++ u).masked.size = (p ++ u).text.size :=
    ((h.even.1.append h.parts.even.1 : (p ++ u).Even)).symm
  have htext : text = (p ++ u).text ++ ((b ++ f).text ++ (y ++ q).text) := by
    simpa [Source.ofText] using congrArg Source.text h.eq_around
  have hmasked : text.mask = (p ++ u).masked ++ ((b ++ f).masked ++ (y ++ q).masked) := by
    simpa [Source.ofText] using congrArg Source.masked h.eq_around
  rw [hmasked, Text.getElem?_cells_append_size, Text.cells_append, Source.masked_append,
    Text.cells_append] at hbracket
  rw [hsize, htext, Text.getElem?_cells_append_size, Text.head?_cells] at hsource
  cases hcells : b.masked.cells with
  | cons d rest =>
    rw [hcells] at hbracket
    obtain rfl : d = '[' := Option.some.inj hbracket
    rcases hparts.front.2.1 '[' (by simp [hcells]) with hident | hblank
    · exact absurd hident (by decide)
    · exact absurd hblank (by decide)
  | nil =>
    have hempty : b.text = [] := by
      rw [← List.isEmpty_iff, Text.isEmpty_eq, hb, ← Text.length_cells, hcells]
      rfl
    obtain ⟨d, hd, -⟩ := hparts.typed
    cases ht : f.text with
    | nil =>
      have hzero : f.masked.cells.length = 0 := by rw [Text.length_cells, ← hf, ht]; rfl
      rw [List.length_eq_zero_iff.mp hzero] at hd
      cases hd
    | cons e rest =>
      rw [Source.text_append, hempty, ht] at hsource
      obtain rfl : e = '[' := Option.some.inj hsource
      rw [← h.parts.type] at hwf
      rcases hwf.head_of_parse ht with hwhite | hident | hparen
      · exact absurd hwhite (by decide)
      · exact absurd hident (by decide)
      · exact absurd hparen (by decide)

include hlayout hwf

theorem MethodAt.ends : ∃ n, Code.EndsAt (p ++ u).masked.cells n := by
  obtain ⟨c, hparts, -⟩ := h.parts.rest
  obtain ⟨hlaid, -⟩ := Code.classLayouts_spec hlayout
  have hcells : text.mask.cells = p.masked.cells ++ (u.masked.cells ++
      (b.masked.cells ++ f.masked.cells) ++ y.masked.cells) ++ q.masked.cells := by
    have hmasked : text.mask = p.masked ++ (u.masked ++ (b.masked ++ f.masked) ++ y.masked) ++
        q.masked := by
      simpa [Source.ofText] using congrArg Source.masked h.eq
    rw [hmasked]
    simp only [Text.cells_append]
  have hskip : Code.skipAttributes text.mask.cells p.masked.size
      (p ++ (u ++ (b ++ f) ++ y)).masked.size = (p ++ u).masked.size := by
    have hlocal := (Code.shows_append p.masked.cells (u.masked.cells ++
      (b.masked.cells ++ f.masked.cells) ++ y.masked.cells) q.masked.cells).skipAttributes
      (i := 0) (Nat.le_refl _)
    rw [← hcells, hparts.attributes] at hlocal
    simpa [Nat.add_assoc] using hlocal
  have hbegin := Code.mayBegin_of_mem_memberRanges hlaid.opens (List.mem_of_getElem? h.range)
  rw [hskip] at hbegin
  obtain ⟨n, hends⟩ := hbegin.resolve_left (h.head_ne hwf)
  have htake : text.mask.cells.take (p ++ u).masked.size = (p ++ u).masked.cells := by
    rw [hcells, Source.masked_append, Text.cells_append]
    simp only [List.append_assoc]
    rw [← List.append_assoc p.masked.cells]
    exact List.take_left' (by simp)
  rw [htake] at hends
  exact ⟨n, hends⟩

/-- The lead of the method as a scan of the source reaches it. -/
theorem MethodAt.exists_leadMask :
    ∃ s₀ s₁ s₂, LeadMask (p ++ u).text b.text f.text (y ++ q).text s₀ s₁ s₂ ∧
      Scan.start.mask (p ++ u).text (b.text ++ (f.text ++ (y ++ q).text)) = (p ++ u).masked ∧
      s₁.mask f.text (y ++ q).text = f.masked ∧ s₂.mask (y ++ q).text [] = (y ++ q).masked := by
  obtain ⟨c, hparts, -⟩ := h.parts.rest
  obtain ⟨hu, hb, hf, -⟩ := h.parts.even
  obtain ⟨n, hends⟩ := h.ends hlayout hwf
  have hwf' : (TypeRef.parse f.text).WellFormed := by rwa [h.parts.type]
  have hlast : ∀ d, (p ++ u).masked.cells.getLast? = some d → d ≠ '"' := by
    rintro d hd rfl
    rcases hends.last hd with hblank | hend
    · exact absurd hblank (by decide)
    · exact absurd hend (by decide)
  have hstar : f.text.head? ≠ some '*' := by
    intro hstar
    obtain ⟨rest, hrest⟩ := List.head?_eq_some_iff.mp hstar
    rcases hwf'.head_of_parse hrest with hwhite | hident | hparen
    · exact absurd hwhite (by decide)
    · exact absurd hident (by decide)
    · exact absurd hparen (by decide)
  have htyped : f.masked.cells ≠ [] := by
    obtain ⟨d, hd, -⟩ := hparts.typed
    exact List.ne_nil_of_mem hd
  exact Source.exists_leadMask h.eq_around (h.even.1.append hu) hb hf hlast hparts.front hparts.head
    htyped hwf'.quiet_of_parse hstar h.exists_name

/-- With another lead printed before the name, only the lead is exchanged in the source. -/
theorem MethodAt.exchange {ms : List String} (hms : ∀ w ∈ ms, w ∈ memberModifiers) {t : TypeRef}
    (ht : t.WellFormed) :
    Source.LeadSwap (p ++ u) (b ++ f) (Source.plain (leadText ms t)) (y ++ q) ∧
      Source.ofText ((p ++ u).text ++ leadText ms t ++ (y ++ q).text) =
        p ++ u ++ Source.plain (leadText ms t) ++ (y ++ q) := by
  obtain ⟨c, hparts, -⟩ := h.parts.rest
  obtain ⟨hu, hb, hf, hy⟩ := h.parts.even
  obtain ⟨n, hends⟩ := h.ends hlayout hwf
  have hwf' : (TypeRef.parse f.text).WellFormed := by rwa [h.parts.type]
  obtain ⟨s₀, s₁, s₂, hlead, hmaskA, hmaskF, hmaskC⟩ := h.exists_leadMask hlayout hwf
  have hmask : f.masked = f.text := hmaskF.symm.trans hlead.mask_type
  obtain ⟨hne, hquiet, hhead⟩ := quiet_leadText hms ht
  refine ⟨⟨⟨⟨h.even.1.append hu, hb.append hf, Source.even_plain _, hy.append h.even.2.2⟩, ?_⟩,
    ⟨n, hends⟩, ?_, ?_, h.exists_name⟩,
    Source.ofText_exchanged hlead hmaskA hmaskC hne hquiet hhead⟩
  · rw [← h.eq_around]
    exact Source.sound_ofText text
  · rw [Source.masked_append, Text.cells_append]
    refine hparts.lead (by rw [hmask]; exact hwf'.closed_of_parse) fun d hd => ?_
    rw [hmask, Text.head?_cells] at hd
    obtain ⟨rest, hrest⟩ := List.head?_eq_some_iff.mp hd
    rcases hwf'.head_of_parse hrest with hwhite | hident | rfl
    · constructor <;> rintro rfl <;> exact absurd hwhite (by decide)
    · constructor <;> rintro rfl <;> exact absurd hident (by decide)
    · decide
  · show Code.Lead (Text.cells (leadText ms t))
    rw [cells_leadText hms]
    exact lead_printedLead hms ht

end

/-- With another lead printed in front of the name of a method, the file declares the classes that
it declared, and the method has the modifiers and the return type that were printed. -/
theorem exists_exchanged {text : Text} {file : SourceFile} (hfile : parse text = .ok file)
    {i : Nat} {c : ParsedClass} (hc : file.classes[i]? = some c) {k : Nat} {m : Method}
    (hm : c.node.members[k]? = some (.method m)) (hwf : m.returnType.WellFormed) :
    ∃ l callable a b d, c.layout.members[k]? = some l ∧ l.shape.callable? = some callable ∧
      text = a ++ b ++ d ∧ callable.lead = ⟨a.size, a.size + b.size⟩ ∧
      (∀ w ∈ m.modifiers, w ∈ memberModifiers) ∧
      ∀ ms : List String, (∀ w ∈ ms, w ∈ memberModifiers) → ∀ t : TypeRef, t.WellFormed →
        ∃ file' c', parse (a ++ leadText ms t ++ d) = .ok file' ∧
          file'.classes.length = file.classes.length ∧ file'.classes[i]? = some c' ∧
          c'.node = { c.node with
            members := c.node.members.set k
              (.method { m with modifiers := ms, returnType := t }) } := by
  have hmem := List.mem_of_getElem? hc
  obtain ⟨hlayout, hnode⟩ := layout_of_mem_classes hfile hmem
  obtain ⟨p, u, b, f, y, q, h⟩ := exists_methodAt hfile hmem hm
  obtain ⟨l, callable, hl, hcallable, hlead⟩ := h.lead
  have hpu : (p ++ u).Even := h.even.1.append h.parts.even.1
  have hbf : (b ++ f).Even := h.parts.even.2.1.append h.parts.even.2.2.1
  have htext : text = (p ++ u).text ++ (b ++ f).text ++ (y ++ q).text :=
    congrArg Source.text h.eq_around
  refine ⟨l, callable, (p ++ u).text, (b ++ f).text, (y ++ q).text, hl, hcallable, htext, ?_,
    h.parts.modifiers, fun ms hms t ht => ?_⟩
  · rw [hlead, hpu, hbf, ← Text.size_append]
    rfl
  obtain ⟨hswap, hsource⟩ := h.exchange hlayout hwf hms ht
  obtain ⟨n, hswappable⟩ := hswap.exists_swappable
  have hname := h.name_pos
  have hlead := hswap.lead_pos
  have hsource' : Source.ofText ((p ++ u).text ++ leadText ms t ++ (y ++ q).text) =
      p ++ (u ++ Source.plain (leadText ms t) ++ y) ++ q := by
    rw [hsource]
    simp only [Source.append_assoc]
  obtain ⟨file', c', hfile', hlength, hc', -, hnode'⟩ := exists_swapped_member hfile hc h.toMemberAt
    hsource' h.parts.even.1 h.parts.even.2.2.2 hswap.toSwap hswappable
    (by rw [Source.masked_append, Text.size_append]; omega) hname
    (fun hopening q hpos hq _ => hswap.memberRanges_moved hopening hpos hq)
    (h.parts.exchanged hms ht _)
  exact ⟨file', c', hfile', hlength, hc', hnode'⟩

end SourceFile

end ClassRefactor
