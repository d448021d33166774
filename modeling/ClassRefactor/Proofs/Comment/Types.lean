import ClassRefactor.Proofs.Comment.Blanked
import ClassRefactor.Proofs.Layout.Typed
import ClassRefactor.Proofs.Source.File
import ClassRefactor.Proofs.Tree.Content

/-!
# Comments within types

Where a type ends is found in the masked code, but its text is cut out of the source, and only white
space is dropped from it. So a comment within the range of a type becomes part of the type. All
other types are those of the source without its comments.
-/

namespace ClassRefactor

/-- The types that a member is written with, in their order. -/
def Member.types : Member → List TypeRef
  | .field f => [f.type]
  | .constructor c => c.parameters.map Parameter.type
  | .method m => m.returnType :: m.parameters.map Parameter.type
  | .other _ => []

namespace SourceFile

/-- The type at a position: the class, the member, and the place among the types of the member. -/
def typeAt? (file : SourceFile) (i j k : Nat) : Option TypeRef :=
  file.classes[i]?.bind fun c => c.node.members[j]?.bind fun m => m.types[k]?

/-- Where the type at a position stands in the source. -/
def typeRangeAt? (file : SourceFile) (i j k : Nat) : Option Range :=
  file.classes[i]?.bind fun c => c.layout.members[j]?.bind fun m => m.shape.typeRanges[k]?

end SourceFile

/-- A text that begins with code is read as the same type without its comments if, and only if,
it has none. -/
theorem TypeRef.parse_blankComments_iff {t : Text} {r : Range}
    (hfits : Code.Fits t.mask.cells r) (hbegins : Code.Begins t.mask.cells r) :
    parse (t.blankComments.slice r.start r.stop) = parse (t.slice r.start r.stop) ↔
      ¬t.HasComment r := by
  obtain ⟨hle, hstart, hstop⟩ := hfits
  obtain ⟨hlt, d, hd, hblank⟩ := hbegins
  obtain ⟨a, p, b, rfl, ha, hp, hslice, hslice'⟩ := Text.exists_slice_blankComments
    (Text.isBoundary_of_seam hstart) (Text.isBoundary_of_seam hstop) hle
  have hr : r = ⟨a.size, a.size + p.size⟩ := by rw [hp, ha]
  rw [hslice, hslice', hr, Text.hasComment_iff]
  constructor
  · intro heq hcomment
    cases p with
    | nil => cases hcomment
    | cons c p =>
      -- The first character shows in the mask, so it belongs to no comment.
      have hfirst : ((Scan.start.after a (c :: p ++ b)).next c (p ++ b)).mode ≠ .comment := by
        rw [← ha] at hd
        exact Scan.mode_ne_comment_of_cell hd hblank
      rw [List.cons_append, Scan.modes_cons, List.length_cons, List.take_succ_cons,
        List.mem_cons] at hcomment
      have hless := ((Scan.sane_start.after a (c :: p ++ b)).next c (p ++ b)).strip_blank_lt hfirst
        (hcomment.resolve_left (Ne.symm hfirst))
      have hstrip := congrArg (fun type => content (render type)) heq
      simp only [content_render_parse] at hstrip
      have hcons : Text.strip (c :: p) = Text.strip [c] ++ Text.strip p := Text.strip_append [c] p
      rw [Scan.blank, Text.blankOne, if_neg hfirst, Text.strip_append, hcons] at hstrip
      have := congrArg List.length (List.append_cancel_left hstrip)
      omega
  · intro hnone
    rw [Scan.blank_of_no_comment _ hnone]

/-- The types of a member are read one by one, each from its range. -/
theorem MemberLayout.types_of_read {s : Source} {m : MemberLayout} {member : Member}
    (h : m.read s = .ok member) :
    List.Forall₂ (fun r type => s.type r = .ok type) m.shape.typeRanges member.types := by
  have parameter : ∀ {p : ParameterLayout} {q : Parameter}, p.read s = .ok q →
      s.type p.type = .ok q.type := by
    intro p q hq
    simp only [ParameterLayout.read, bind_eq_ok_iff] at hq
    obtain ⟨_, _, type, htype, _, _, _, _, hq⟩ := hq
    rw [← Except.ok.inj hq]
    exact htype
  have parameters : ∀ {ps : List ParameterLayout} {qs : List Parameter},
      ps.mapM (ParameterLayout.read s) = .ok qs →
      List.Forall₂ (fun r type => s.type r = .ok type) (ps.map ParameterLayout.type)
        (qs.map Parameter.type) := by
    intro ps qs hqs
    rw [List.forall₂_map_left_iff, List.forall₂_map_right_iff]
    exact (mapM_eq_ok_iff.mp hqs).imp fun _ _ => parameter
  simp only [MemberLayout.read, bind_eq_ok_iff] at h
  obtain ⟨_, _, _, _, h⟩ := h
  cases hshape : m.shape with
  | field f =>
    rw [hshape] at h
    obtain ⟨field, hf, h⟩ := bind_eq_ok_iff.mp h
    simp only [FieldLayout.read, bind_eq_ok_iff] at hf
    obtain ⟨type, htype, _, _, hf⟩ := hf
    rw [← Except.ok.inj h, ← Except.ok.inj hf]
    exact .cons htype .nil
  | constructor c =>
    rw [hshape] at h
    obtain ⟨k, hk, h⟩ := bind_eq_ok_iff.mp h
    simp only [CallableLayout.readConstructor, bind_eq_ok_iff] at hk
    obtain ⟨_, _, _, _, ps, hps, _, _, _, _, hk⟩ := hk
    rw [← Except.ok.inj h, ← Except.ok.inj hk]
    exact parameters hps
  | method c =>
    rw [hshape] at h
    obtain ⟨k, hk, h⟩ := bind_eq_ok_iff.mp h
    simp only [CallableLayout.readMethod, bind_eq_ok_iff] at hk
    obtain ⟨_, _, _, _, _, _, type, htype, ps, hps, _, _, _, _, hk⟩ := hk
    rw [← Except.ok.inj h, ← Except.ok.inj hk]
    exact .cons htype (parameters hps)
  | other =>
    rw [hshape] at h
    obtain ⟨_, _, h⟩ := bind_eq_ok_iff.mp h
    rw [← Except.ok.inj h]
    exact .nil

namespace SourceFile

variable {text : Text} {file : SourceFile}

/-- A file has as many types as its layouts say, each read from its range. -/
theorem type_of_range (h : parse text = .ok file) (i j k : Nat) :
    Option.Rel (fun r type => (Source.ofText text).type r = .ok type) (file.typeRangeAt? i j k)
      (file.typeAt? i j k) := by
  have hclass : Option.Rel (fun (c d : ParsedClass) => c = d ∧ c ∈ file.classes)
      file.classes[i]? file.classes[i]? := by
    cases hc : file.classes[i]? with
    | none => exact .none
    | some c => exact .some ⟨rfl, List.mem_of_getElem? hc⟩
  refine rel_bind hclass ?_
  rintro c _ ⟨rfl, hc⟩
  have hread := (layout_of_mem_classes h hc).2
  simp only [ClassLayout.read, bind_eq_ok_iff] at hread
  obtain ⟨_, _, _, _, _, _, _, _, _, _, members, hmembers, hread⟩ := hread
  rw [← Except.ok.inj hread]
  exact rel_bind (rel_getElem?_of_forall₂ (mapM_eq_ok_iff.mp hmembers) j) fun m member hm =>
    rel_getElem?_of_forall₂ (MemberLayout.types_of_read hm) k

theorem begins_of_typeRangeAt? (h : parse text = .ok file) {i j k : Nat} {r : Range}
    (hr : file.typeRangeAt? i j k = some r) :
    Code.Fits text.mask.cells r ∧ Code.Begins text.mask.cells r := by
  obtain ⟨c, hc, hr⟩ := Option.bind_eq_some_iff.mp hr
  obtain ⟨m, hm, hr⟩ := Option.bind_eq_some_iff.mp hr
  exact Code.begins_of_mem_typeRanges (layout_of_mem_classes h (List.mem_of_getElem? hc)).1
    (List.mem_of_getElem? hm) r (List.mem_of_getElem? hr)

/-- Where types stand is a matter of the layouts. -/
theorem typeRangeAt?_congr {file' : SourceFile}
    (h : file'.classes.map ParsedClass.layout = file.classes.map ParsedClass.layout)
    (i j k : Nat) : file'.typeRangeAt? i j k = file.typeRangeAt? i j k := by
  have hlayout : ∀ f : SourceFile, f.typeRangeAt? i j k =
      (f.classes.map ParsedClass.layout)[i]?.bind fun layout =>
        layout.members[j]?.bind fun m => m.shape.typeRanges[k]? := by
    intro f
    rw [List.getElem?_map, typeRangeAt?]
    cases f.classes[i]? <;> rfl
  rw [hlayout, hlayout, h]

/-- Blanking the comments of a source changes the types that hold a comment and no other: unless it
makes a `#` of the code the first of its line, both sources have the same layouts, and the types at
a position are equal if, and only if, no comment begins where the type stands. -/
theorem parse_blankComments_types (text : Text) (h : .comment ∉ text.blankComments.modes) :
    ∃ file file', parse text = .ok file ∧ parse text.blankComments = .ok file' ∧
      file'.classes.map ParsedClass.layout = file.classes.map ParsedClass.layout ∧
      ∀ i j k, (file.typeAt? i j k).isSome = (file.typeRangeAt? i j k).isSome ∧
        (file'.typeAt? i j k = file.typeAt? i j k ↔
          ∀ r, file.typeRangeAt? i j k = some r → ¬text.HasComment r) := by
  obtain ⟨file, hfile⟩ := exists_parse text
  obtain ⟨file', hfile'⟩ := exists_parse text.blankComments
  have hmask := Text.mask_blankComments h
  have hlayouts : file'.classes.map ParsedClass.layout = file.classes.map ParsedClass.layout := by
    rw [layouts_of_parse hfile, layouts_of_parse hfile', hmask]
  refine ⟨file, file', hfile, hfile', hlayouts, fun i j k => ?_⟩
  have htype := type_of_range hfile i j k
  have htype' := type_of_range hfile' i j k
  rw [typeRangeAt?_congr hlayouts] at htype'
  generalize file.typeAt? i j k = type at *
  generalize file'.typeAt? i j k = type' at *
  cases hrange : file.typeRangeAt? i j k with
  | none =>
    rw [hrange] at htype htype'
    cases htype
    cases htype'
    simp
  | some r =>
    obtain ⟨hfits, hbegins⟩ := begins_of_typeRangeAt? hfile hrange
    rw [hrange] at htype htype'
    obtain @⟨_, type, hread⟩ := htype
    obtain @⟨_, type', hread'⟩ := htype'
    rw [Source.type_eq (Source.sound_ofText text) hfits] at hread
    rw [Source.type_eq (Source.sound_ofText text.blankComments)
      (by rw [Source.ofText, hmask]; exact hfits)] at hread'
    rw [← Except.ok.inj hread, ← Except.ok.inj hread']
    refine ⟨rfl, ?_⟩
    simp only [Option.some.injEq, forall_eq']
    exact TypeRef.parse_blankComments_iff hfits hbegins

/-- Comments before a type, within one, and behind one. -/
def notedTypes : Text :=
  "class C \x7b /* a */ int _x; // b\n List<int/* c */> F(/* d */ string s /* e */) \x7b \x7d \x7d".toList

theorem parse_blankComments_types_notedTypes :
    .comment ∉ notedTypes.blankComments.modes ∧ ∃ file file', parse notedTypes = .ok file ∧
      parse notedTypes.blankComments = .ok file' ∧
      file'.classes.map ParsedClass.layout = file.classes.map ParsedClass.layout ∧
      ∀ i j k, (file.typeAt? i j k).isSome = (file.typeRangeAt? i j k).isSome ∧
        (file'.typeAt? i j k = file.typeAt? i j k ↔
          ∀ r, file.typeRangeAt? i j k = some r → ¬notedTypes.HasComment r) :=
  have h : .comment ∉ notedTypes.blankComments.modes := by decide +kernel
  ⟨h, parse_blankComments_types notedTypes h⟩

/-- A return type with a comment after it. -/
def notedResult : Text := "class C \x7b int /* n */ F() \x7b \x7d \x7d".toList

/-- The comment becomes part of the return type. -/
theorem parse_notedResult :
    ∃ file file', parse notedResult = .ok file ∧ parse notedResult.blankComments = .ok file' ∧
      notedResult.blankComments = "class C \x7b int         F() \x7b \x7d \x7d".toList ∧
      file.typeAt? 0 0 0 = some ⟨"int/*n*/", [], ""⟩ ∧
      file'.typeAt? 0 0 0 = some ⟨"int", [], ""⟩ := by
  have hblank : notedResult.blankComments = "class C \x7b int         F() \x7b \x7d \x7d".toList := by
    decide +kernel
  have hrun : (parse notedResult).toOption.bind (typeAt? · 0 0 0) =
      some ⟨"int/*n*/", [], ""⟩ := by decide +kernel
  have hrun' : (parse notedResult.blankComments).toOption.bind (typeAt? · 0 0 0) =
      some ⟨"int", [], ""⟩ := by decide +kernel
  simp only [Option.bind_eq_some_iff, toOption_eq_some_iff] at hrun hrun'
  obtain ⟨file, hfile, htype⟩ := hrun
  obtain ⟨file', hfile', htype'⟩ := hrun'
  exact ⟨file, file', hfile, hfile', hblank, htype, htype'⟩

end SourceFile

end ClassRefactor
