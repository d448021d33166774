import ClassRefactor.Source.File
import ClassRefactor.Proofs.Layout.Class

/-!
# Reading a source file

The ranges of a layout end at seams of the masked text, which are boundaries of the source. So no
range fails its check, and every text can be read, whatever it holds. Each class found in it has a
layout whose parts lie in order over the text, and a tree of the same shape.
-/

namespace ClassRefactor

/-- The parameters and the body of a constructor or method. -/
def Member.callable? : Member → Option (List Parameter × Body)
  | .constructor c => some (c.parameters, c.body)
  | .method m => some (m.parameters, m.body)
  | .field _ => none
  | .other _ => none

/-- The statements of a body, if it is a block. -/
def Body.block? : Body → Option (List Statement)
  | .block statements => some statements
  | .expression _ => none
  | .absent => none

/-- A body is a block if its layout is one, with as many statements. -/
def BodyLayout.Mirrors (layout : BodyLayout) (body : Body) : Prop :=
  Option.Rel (fun b statements => b.statements.length = statements.length) layout.block? body.block?

/-- A member is a constructor or method if its layout is one, with as many parameters and a body
of the same kind. -/
def MemberLayout.Mirrors (layout : MemberLayout) (member : Member) : Prop :=
  Option.Rel (fun c parts => c.params.length = parts.1.length ∧ c.body.Mirrors parts.2)
    layout.shape.callable? member.callable?

/-- A source whose masked text has the boundaries of the text: seams of the code are boundaries. -/
def Source.Sound (s : Source) : Prop :=
  ∀ p, Code.Seam s.masked.cells p → s.text.isBoundary p = true ∧ s.masked.isBoundary p = true

theorem Source.sound_ofText (text : Text) : (Source.ofText text).Sound := fun _ h =>
  ⟨Text.isBoundary_of_seam h, Text.isBoundary_mask (Text.isBoundary_of_seam h)⟩

theorem Code.Fits.checked {code : Code} {r : Range} (h : code.Fits r) : r.checked = .ok r := by
  simp [Range.checked, h.1]

section

variable {s : Source} {r : Range} (hs : s.Sound) (h : Code.Fits s.masked.cells r)
include hs h

/-- A range that fits is read as the slice between its ends. -/
theorem Source.Sound.read : s.text.read r = .ok (s.text.slice r.start r.stop) := by
  obtain ⟨hle, hstart, hstop⟩ := h
  simp [Text.read, Nat.not_lt.mpr hle, (hs _ hstart).1, (hs _ hstop).1]

theorem Source.Sound.readMask : s.masked.read r = .ok (s.masked.slice r.start r.stop) := by
  obtain ⟨hle, hstart, hstop⟩ := h
  simp [Text.read, Nat.not_lt.mpr hle, (hs _ hstart).2, (hs _ hstop).2]

end

theorem length_of_mapM_eq_ok {α β ε : Type} {f : α → Except ε β} {as : List α} {bs : List β}
    (h : as.mapM f = .ok bs) : as.length = bs.length :=
  (mapM_eq_ok_iff.mp h).length_eq

theorem Source.exists_optional {α : Type} {read : Range → Except Fault α} {r : Option Range}
    (h : ∀ s, r = some s → ∃ a, read s = .ok a) : ∃ a, Source.optional read r = .ok a := by
  cases r with
  | none => exact ⟨none, rfl⟩
  | some s =>
    obtain ⟨a, ha⟩ := h s rfl
    exact ⟨some a, by simp [Source.optional, ha, Except.map]⟩

section

variable {s : Source} {r : Range} (hs : s.Sound) (h : Code.Fits s.masked.cells r)
include hs h

theorem Source.opaqueText_eq : s.opaqueText r = .ok (.ofText (s.text.slice r.start r.stop)) := by
  simp [Source.opaqueText, hs.read h, bind, Except.bind, pure, Except.pure]

theorem Source.verbatim_eq : s.verbatim r = .ok (.ofList (s.text.slice r.start r.stop)) := by
  simp [Source.verbatim, hs.read h, bind, Except.bind, pure, Except.pure]

theorem Source.name_eq : s.name r = .ok (.ofList (s.masked.slice r.start r.stop)) := by
  simp [Source.name, hs.readMask h, bind, Except.bind, pure, Except.pure]

theorem Source.type_eq : s.type r = .ok (TypeRef.parse (s.text.slice r.start r.stop)) := by
  simp [Source.type, hs.read h, bind, Except.bind, pure, Except.pure]

theorem Source.exists_clause : ∃ o, s.clause r = .ok o := by
  simp [Source.clause, hs.read h, bind, Except.bind, pure, Except.pure]

theorem Statement.read_eq :
    Statement.read s r =
      .ok (.ofText (s.text.slice r.start r.stop) (s.masked.slice r.start r.stop)) := by
  simp [Statement.read, hs.read h, hs.readMask h, bind, Except.bind, pure, Except.pure]

end

section

variable {s : Source} (hs : s.Sound)
include hs

theorem VariableLayout.Readable.exists_read {v : VariableLayout}
    (h : v.Readable s.masked.cells) : ∃ d, v.read s = .ok d := by
  have hname := Source.name_eq hs h.name
  obtain ⟨initializer, hinit⟩ := Source.exists_optional fun r hr =>
    ⟨_, Source.opaqueText_eq hs (h.initializer r hr)⟩
  simp [VariableLayout.read, hname, hinit, bind, Except.bind, pure, Except.pure]

theorem FieldLayout.Readable.exists_read {f : FieldLayout} (h : f.Readable s.masked.cells) :
    ∃ field, f.read s = .ok field := by
  have htype := Source.type_eq hs h.type
  obtain ⟨declarators, hdecls⟩ := exists_mapM_eq_ok fun v hv => (h.declarators v hv).exists_read hs
  simp [FieldLayout.read, htype, hdecls, bind, Except.bind, pure, Except.pure]

theorem ParameterLayout.Readable.exists_read {p : ParameterLayout}
    (h : p.Readable s.masked.cells) : ∃ q, p.read s = .ok q := by
  have htype := Source.type_eq hs h.type
  have hname := Source.name_eq hs h.name
  obtain ⟨default, hdefault⟩ := Source.exists_optional fun r hr =>
    ⟨_, Source.opaqueText_eq hs (h.default r hr)⟩
  simp [ParameterLayout.read, h.range.checked, htype, hname, hdefault, bind, Except.bind, pure,
    Except.pure]

/-- A body is read as one of the same kind. -/
theorem BodyLayout.Readable.exists_read {b : BodyLayout} (h : b.Readable s.masked.cells) :
    ∃ body, b.read s = .ok body ∧ b.Mirrors body := by
  cases b with
  | block b =>
    obtain ⟨statements, hstatements⟩ :=
      exists_mapM_eq_ok fun r hr => ⟨_, Statement.read_eq hs (h r hr)⟩
    refine ⟨.block statements, ?_, .some (length_of_mapM_eq_ok hstatements)⟩
    simp [BodyLayout.read, hstatements, bind, Except.bind, pure, Except.pure]
  | expression r =>
    have hr := Source.opaqueText_eq hs (show Code.Fits s.masked.cells r from h)
    refine ⟨.expression (.ofText (s.text.slice r.start r.stop)), ?_, .none⟩
    simp [BodyLayout.read, hr, bind, Except.bind, pure, Except.pure]
  | absent => exact ⟨.absent, rfl, .none⟩

theorem CallableLayout.Readable.exists_readConstructor {c : CallableLayout}
    (h : c.Readable s.masked.cells) :
    ∃ k, c.readConstructor s = .ok k ∧
      c.params.length = k.parameters.length ∧ c.body.Mirrors k.body := by
  have hname := Source.name_eq hs h.name
  obtain ⟨params, hparams⟩ := exists_mapM_eq_ok fun p hp => (h.params p hp).exists_read hs
  obtain ⟨body, hbody, hmirrors⟩ := h.body.exists_read hs
  have htail := hs.read h.tail
  simp only [CallableLayout.readConstructor, h.lead.checked, hname, hparams, htail, hbody, bind,
    Except.bind, pure, Except.pure]
  exact ⟨_, rfl, length_of_mapM_eq_ok hparams, hmirrors⟩

theorem CallableLayout.Readable.exists_readMethod {c : CallableLayout}
    (h : c.Readable s.masked.cells) :
    ∃ m, c.readMethod s = .ok m ∧
      c.params.length = m.parameters.length ∧ c.body.Mirrors m.body := by
  have hname := Source.name_eq hs h.name
  obtain ⟨typeParams, htypeParams⟩ := Source.exists_optional fun r hr =>
    ⟨_, Source.verbatim_eq hs (h.typeParams r hr)⟩
  have htype := Source.type_eq hs h.result
  obtain ⟨params, hparams⟩ := exists_mapM_eq_ok fun p hp => (h.params p hp).exists_read hs
  obtain ⟨tail, htail⟩ := Source.exists_clause hs h.tail
  obtain ⟨body, hbody, hmirrors⟩ := h.body.exists_read hs
  simp only [CallableLayout.readMethod, h.lead.checked, hname, htypeParams, htype, hparams, htail,
    hbody, bind, Except.bind, pure, Except.pure]
  exact ⟨_, rfl, length_of_mapM_eq_ok hparams, hmirrors⟩

/-- A member is read as one of the same kind. -/
theorem MemberLayout.Readable.exists_read {m : MemberLayout} (h : m.Readable s.masked.cells) :
    ∃ member, m.read s = .ok member ∧ m.Mirrors member := by
  obtain ⟨range, signature, shape⟩ := m
  obtain ⟨hrange, hsignature, hshape⟩ := h
  simp only [MemberLayout.read, hrange.checked, hsignature.checked, bind, Except.bind, pure,
    Except.pure]
  cases shape with
  | field f =>
    obtain ⟨field, hf⟩ := FieldLayout.Readable.exists_read hs hshape
    exact ⟨.field field, by simp [hf], .none⟩
  | constructor c =>
    obtain ⟨k, hk, hparams, hbody⟩ := CallableLayout.Readable.exists_readConstructor hs hshape
    exact ⟨.constructor k, by simp [hk], .some ⟨hparams, hbody⟩⟩
  | method c =>
    obtain ⟨k, hk, hparams, hbody⟩ := CallableLayout.Readable.exists_readMethod hs hshape
    exact ⟨.method k, by simp [hk], .some ⟨hparams, hbody⟩⟩
  | other =>
    have hr := Source.opaqueText_eq hs hrange
    exact ⟨.other (.ofText (s.text.slice range.start range.stop)), by simp [hr], .none⟩

end

variable {text : Text}

/-- A class is read member by member. -/
theorem ClassLayout.Readable.exists_read {s : Source} (hs : s.Sound) {c : ClassLayout}
    (h : c.Readable s.masked.cells) :
    ∃ node, c.read s = .ok node ∧ List.Forall₂ MemberLayout.Mirrors c.members node.members := by
  have hname := Source.name_eq hs h.name
  obtain ⟨typeParams, htypeParams⟩ := Source.exists_optional fun r hr =>
    ⟨_, Source.verbatim_eq hs (h.typeParams r hr)⟩
  obtain ⟨bases, hbases⟩ := Source.exists_clause hs h.tail
  obtain ⟨members, hmembers⟩ := exists_mapM_eq_ok fun m hm =>
    let ⟨member, hmember, _⟩ := (h.members m hm).exists_read hs
    ⟨member, hmember⟩
  simp only [ClassLayout.read, h.range.checked, h.header.checked, hname, htypeParams, hbases,
    hmembers, bind, Except.bind, pure, Except.pure]
  refine ⟨_, rfl, ?_⟩
  have hread := h.members
  -- Each member was read from its layout, and mirrors it.
  have key := mapM_eq_ok_iff.mp hmembers
  clear hmembers
  generalize c.members = layouts at key hread
  induction key with
  | nil => exact .nil
  | cons hm _ ih =>
    obtain ⟨member, hmember, hmirrors⟩ := (hread _ List.mem_cons_self).exists_read hs
    rw [hm] at hmember
    obtain rfl := Except.ok.inj hmember
    exact .cons hmirrors (ih fun m hm => hread m (List.mem_cons_of_mem _ hm))

namespace SourceFile

/-- A file is read if all its class layouts are. -/
theorem parse_eq_ok_iff {file : SourceFile} :
    parse text = .ok file ↔
      List.Forall₂ (fun layout c => layout.read (Source.ofText text) = .ok c.node ∧
          c.layout = layout ∧ c.nesting = layout.nesting (Code.classLayouts text.mask.cells))
        (Code.classLayouts text.mask.cells) file.classes := by
  have hone : ∀ (layout : ClassLayout) (c : ParsedClass), (do
      return { node := ← layout.read (Source.ofText text), layout
               nesting := layout.nesting (Code.classLayouts text.mask.cells) } :
        Except Fault ParsedClass) = .ok c ↔
      layout.read (Source.ofText text) = .ok c.node ∧ c.layout = layout ∧
        c.nesting = layout.nesting (Code.classLayouts text.mask.cells) := by
    rintro layout ⟨node, layout', nesting⟩
    cases layout.read (Source.ofText text) with
    | error e => simp [bind, Except.bind]
    | ok node' => simp [bind, Except.bind, pure, Except.pure, eq_comm]
  simp only [← hone, ← mapM_eq_ok_iff]
  obtain ⟨classes⟩ := file
  simp only [parse, Source.ofText]
  generalize List.mapM (m := Except Fault) _ (Code.classLayouts text.mask.cells) = r
  cases r with
  | error e => simp [bind, Except.bind]
  | ok cs => simp [bind, Except.bind, pure, Except.pure]

theorem layouts_of_parse {file : SourceFile} (h : parse text = .ok file) :
    file.classes.map ParsedClass.layout = Code.classLayouts text.mask.cells := by
  have hforall : List.Forall₂ (· = ·) (Code.classLayouts text.mask.cells)
      (file.classes.map ParsedClass.layout) := by
    rw [List.forall₂_map_right_iff]
    exact (parse_eq_ok_iff.mp h).imp fun _ _ hc => hc.2.1.symm
  rw [List.forall₂_eq_eq_eq] at hforall
  exact hforall.symm

/-- Every text can be read. -/
theorem exists_parse (text : Text) : ∃ file, parse text = .ok file := by
  have hlayouts : ∀ layout ∈ Code.classLayouts text.mask.cells, ∃ c : ParsedClass,
      layout.read (Source.ofText text) = .ok c.node ∧ c.layout = layout ∧
        c.nesting = layout.nesting (Code.classLayouts text.mask.cells) := by
    intro layout hlayout
    obtain ⟨node, hnode, -⟩ := (Code.classLayouts_spec hlayout).2.exists_read
      (Source.sound_ofText text)
    exact ⟨⟨node, layout, _⟩, hnode, rfl, rfl⟩
  obtain ⟨classes, hclasses⟩ := exists_forall₂ hlayouts
  exact ⟨⟨classes⟩, parse_eq_ok_iff.mpr hclasses⟩

/-- Where a class of a file comes from. -/
theorem layout_of_mem_classes {file : SourceFile} (h : parse text = .ok file) {c : ParsedClass}
    (hc : c ∈ file.classes) :
    c.layout ∈ Code.classLayouts text.mask.cells ∧
      c.layout.read (Source.ofText text) = .ok c.node := by
  obtain ⟨layout, hlayout, hread, rfl, -⟩ := exists_of_forall₂_right (parse_eq_ok_iff.mp h) hc
  exact ⟨hlayout, hread⟩

/-- What a layout says holds of the source, though it was found in the masked text. -/
theorem wellLaid_of_mem_classes {file : SourceFile} (h : parse text = .ok file) {c : ParsedClass}
    (hc : c ∈ file.classes) : c.layout.WellLaid text.cells := by
  have hlaid := (Code.classLayouts_spec (layout_of_mem_classes h hc).1).1
  refine hlaid.transfer (fun p d hd hcell => ?_) (by simp)
  simp only [isSolid, Bool.and_eq_true, bne_iff_ne] at hd
  exact Text.getElem?_cells_of_mask hcell hd.1.2 hd.2

theorem readable_of_mem_classes {file : SourceFile} (h : parse text = .ok file) {c : ParsedClass}
    (hc : c ∈ file.classes) : c.layout.Readable text.mask.cells :=
  (Code.classLayouts_spec (layout_of_mem_classes h hc).1).2

/-- The members of a class mirror those of its layout. -/
theorem mirrors_of_mem_classes {file : SourceFile} (h : parse text = .ok file) {c : ParsedClass}
    (hc : c ∈ file.classes) :
    List.Forall₂ MemberLayout.Mirrors c.layout.members c.node.members := by
  obtain ⟨node, hnode, hmirrors⟩ := (readable_of_mem_classes h hc).exists_read
    (Source.sound_ofText text)
  rw [(layout_of_mem_classes h hc).2] at hnode
  obtain rfl := Except.ok.inj hnode
  exact hmirrors

/-- Every text can be read, and each class found in it is well laid over the text: its header, its
braces, its members, and the parameters and statements of these stand in order and apart, with the
delimiters where the layout says. Its tree has the same members, each with as many parameters and
statements as its layout. -/
theorem parse_wellLaid (text : Text) :
    ∃ file, parse text = .ok file ∧ ∀ c ∈ file.classes, c.layout.WellLaid text.cells ∧
      c.layout.members.length = c.node.members.length ∧
      List.Forall₂ MemberLayout.Mirrors c.layout.members c.node.members := by
  obtain ⟨file, hfile⟩ := exists_parse text
  refine ⟨file, hfile, fun c hc => ?_⟩
  have hmirrors := mirrors_of_mem_classes hfile hc
  exact ⟨wellLaid_of_mem_classes hfile hc, hmirrors.length_eq, hmirrors⟩

end SourceFile

end ClassRefactor
