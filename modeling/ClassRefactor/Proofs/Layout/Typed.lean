import ClassRefactor.Proofs.Layout.Modifier
import ClassRefactor.Proofs.Layout.Class

/-!
# Types begin with code

The type of a declaration begins where its modifiers and the blanks after them end. So its range is
not empty and its first cell is no blank; within it there may be blanks.
-/

namespace ClassRefactor

/-- Where the types of a member stand, in their order. -/
def MemberShape.typeRanges : MemberShape → List Range
  | .field f => [f.type]
  | .constructor c => c.params.map ParameterLayout.type
  | .method c => c.result :: c.params.map ParameterLayout.type
  | .other => []

namespace Code

variable {code : Code}

/-- A range that is not empty and begins with a cell that is no blank. -/
def Begins (code : Code) (r : Range) : Prop :=
  r.start < r.stop ∧ ∃ c, code[r.start]? = some c ∧ isLayoutBlank c = false

/-- What follows modifiers and blanks is no blank. -/
theorem exists_after_modifiers {known : List String} {start stop : Nat} (hle : start ≤ stop)
    (hstop : stop ≤ code.length) (hlt : (code.modifiers known start stop).2 < stop) :
    ∃ c, code[(code.modifiers known start stop).2]? = some c ∧ isLayoutBlank c = false := by
  obtain ⟨front, rest, ⟨hcells, -, hrest⟩, hlen, -⟩ := @modifiersFrom_parts known [] start start
    (code.window start stop) (by simp) (by simp)
  rw [List.reverse_nil, List.nil_append] at hcells
  rw [List.length_nil, Nat.add_zero, ← modifiers] at hlen
  rw [hlen] at hlt ⊢
  have hlength := congrArg List.length hcells
  rw [length_window_of_le hstop, List.length_append] at hlength
  cases hcons : rest with
  | nil =>
    rw [hcons, List.length_nil] at hlength
    omega
  | cons c rest =>
    refine ⟨c, ?_, hrest c (by rw [hcons]; rfl)⟩
    rw [← getElem?_window_of_lt hlt, hcells, hcons]
    simp

theorem parameter?_begins {r : Range} {p : ParameterLayout} (hr : code.Fits r)
    (h : code.parameter? r = some p) : code.Begins p.type := by
  obtain ⟨hle, hstart, hstop⟩ := hr
  obtain ⟨-, ha2, ha3⟩ := skipAttributes_spec hle hstart hstop
  obtain ⟨hm1, hm2, hm3⟩ := modifiers_spec parameterModifiers ha2 ha3 hstop
  obtain ⟨he1, he2, he3⟩ := assignment?_getD_spec hm2 hstop
  simp only [parameter?, Option.bind_eq_bind, Option.bind_eq_some_iff, Option.some.injEq] at h
  obtain ⟨⟨type, name⟩, htype, rfl⟩ := h
  obtain ⟨-, -, hts, h1, h2, h3, h4⟩ := typeAndName?_spec he1 hm3 he3 htype
  refine ⟨hts ▸ h1, ?_⟩
  simp only [hts]
  exact exists_after_modifiers ha2 hstop.le (by omega)

theorem parameters?_begins {opening closing : Nat} {ps : List ParameterLayout}
    (hlt : opening < closing) (hopen : Seam code (opening + 1)) (hclose : Seam code closing)
    (h : code.parameters? opening closing = some ps) : ∀ p ∈ ps, code.Begins p.type := by
  unfold parameters? at h
  split at h
  · obtain rfl := Option.some.inj h
    simp
  · intro p hp
    have htiles := tiles_commaRanges hlt hclose.le
    obtain ⟨piece, hpiece, hread⟩ := exists_of_forall₂_right (mapM_eq_some_iff.mp h) hp
    obtain ⟨h1, h2⟩ := htiles.seam hopen hclose hpiece
    obtain ⟨-, hs2, hs3⟩ := skipBlanks_spec (htiles.mem hpiece).2.1 h1 h2
    obtain ⟨ht1, -, ht3⟩ := trimBlanks_spec hs2 hs3 h2
    exact parameter?_begins ⟨ht1, hs3, ht3⟩ hread

theorem field?_begins {start stop : Nat} {f : FieldLayout} (hlt : start < stop)
    (hstart : Seam code start) (hstop : Seam code stop) (h : code.field? start stop = some f) :
    code.Begins f.type := by
  obtain ⟨hd1, -, hd3⟩ := withoutSemicolon_spec hlt hstop
  obtain ⟨-, hm2, hm3⟩ := modifiers_spec memberModifiers hd1 hstart hd3
  have htiles := tiles_commaRanges hm2 hd3.le
  simp only [field?] at h
  split at h
  · cases h
  · rename_i first others hpieces
    simp only [Option.bind_eq_bind, Option.bind_eq_some_iff, Option.some.injEq] at h
    obtain ⟨⟨type, name⟩, htype, further, -, rfl⟩ := h
    rw [hpieces] at htiles
    obtain ⟨-, hle, hfirst⟩ := htiles.mem List.mem_cons_self
    have hat : first.start = (code.modifiers memberModifiers start
        (code.withoutSemicolon stop)).2 := by cases htiles <;> rfl
    have hseam := (htiles.seam hm3 hd3 List.mem_cons_self).2
    obtain ⟨he1, he2, he3⟩ := assignment?_getD_spec hle hseam
    obtain ⟨-, -, hts, h1, h2, h3, h4⟩ := typeAndName?_spec he1 (hat ▸ hm3) he3 htype
    refine ⟨hts ▸ h1, ?_⟩
    simp only [hts, hat]
    exact exists_after_modifiers hd1 hd3.le (by omega)

/-- What stands before the name of a method is its type. -/
theorem callable?_begins {className : Code} {start opening stop : Nat} {c : CallableLayout}
    (hle : start ≤ opening) (hopen : code[opening]? = some '(') (hstart : Seam code start)
    (h : code.callable? className start opening stop = some (.method c)) :
    code.Begins c.result := by
  obtain ⟨c', hfound, ⟨hkind, -⟩ | ⟨hkind, hblank⟩⟩ := callable?_cases h
  · cases hkind
  · obtain rfl := MemberShape.method.inj hkind
    obtain ⟨hn1, -, -, hn4, -⟩ :=
      callableName?_spec hle hstart (seam_of_solid hopen (by decide)).1 hfound.name
    have hlt := lt_of_isWhiteBetween hblank
    rw [hfound.result] at hlt ⊢
    exact ⟨hlt, exists_after_modifiers hn1 hn4.2.1.le hlt⟩

theorem memberLayout_field? {className : Code} {r : Range} {f : FieldLayout}
    (h : (code.memberLayout className r).shape = .field f) :
    code.skipAttributes r.start r.stop < r.stop ∧
      code.field? (code.skipAttributes r.start r.stop) r.stop = some f := by
  obtain ⟨pos, hdecider, -, ⟨-, hread⟩ | ⟨f', hf, hshape⟩⟩ := memberLayout_cases (by rw [h]; nofun)
  · obtain ⟨c, -, ⟨hshape, -⟩ | ⟨hshape, -⟩⟩ := callable?_cases hread
    all_goals
      rw [h] at hshape
      cases hshape
  · obtain ⟨hle, hlt, -⟩ := deciderFrom_spec rfl hdecider
    rw [h] at hshape
    obtain rfl := MemberShape.field.inj hshape
    exact ⟨by omega, hf⟩

/-- The types of a member can be read, and begin with code. -/
theorem begins_of_mem_typeRanges {layout : ClassLayout} (h : layout ∈ code.classLayouts)
    {m : MemberLayout} (hm : m ∈ layout.members) :
    ∀ r ∈ m.shape.typeRanges, code.Fits r ∧ code.Begins r := by
  obtain ⟨hlaid, hreadable⟩ := classLayouts_spec h
  have hsound := sound_of_mem_members h hm
  have hread := (hreadable.members m hm).shape
  have hmember := hlaid.member m hm
  obtain ⟨-, -, -, hmembers⟩ := classLayouts_parts h
  rw [hmembers] at hm
  obtain ⟨range, hrange, rfl⟩ := List.mem_map.mp hm
  rw [memberLayout_range] at hsound
  have hlt := ((memberRanges_of_wellLaid hlaid).1.within range hrange).2.1
  obtain ⟨-, ha2, ha3⟩ := skipAttributes_spec (Nat.le_of_lt hlt) hsound.seams.1 hsound.seams.2
  -- The parameters stand between the parentheses of the callable.
  have hparams : ∀ c, (code.memberLayout (code.window layout.name.start layout.name.stop)
      range).shape.callable? = some c → ∀ p ∈ c.params, code.Begins p.type := by
    intro c hc
    have hc' := hmember.callable c hc
    obtain ⟨opening, -, -, -, hread⟩ := memberLayout_callable? hc
    exact parameters?_begins hc'.ordered (seam_of_solid hc'.opens (by decide)).2
      (seam_of_solid hc'.closes (by decide)).1 (callable?_found hread hc).params
  intro r hr
  cases hshape : (code.memberLayout (code.window layout.name.start layout.name.stop)
      range).shape with
  | field f =>
    rw [hshape] at hr hread
    obtain rfl := List.mem_singleton.mp hr
    obtain ⟨hlt', hfield⟩ := memberLayout_field? hshape
    exact ⟨hread.type, field?_begins hlt' ha3 hsound.seams.2 hfield⟩
  | constructor c =>
    rw [hshape] at hr hread hparams
    obtain ⟨p, hp, rfl⟩ := List.mem_map.mp hr
    exact ⟨(hread.params p hp).type, hparams c rfl p hp⟩
  | method c =>
    rw [hshape] at hr hread hparams
    rcases List.mem_cons.mp hr with rfl | hr
    · obtain ⟨opening, hdecider, -, hopen, hcallable⟩ := memberLayout_callable? (c := c)
        (by rw [hshape]; rfl)
      rw [hshape] at hcallable
      have hle := (deciderFrom_spec rfl hdecider).1
      exact ⟨hread.result, callable?_begins hle hopen ha3 hcallable⟩
    · obtain ⟨p, hp, rfl⟩ := List.mem_map.mp hr
      exact ⟨(hread.params p hp).type, hparams c rfl p hp⟩
  | other =>
    rw [hshape] at hr
    cases hr

end Code

end ClassRefactor
