import ClassRefactor.Proofs.Growth.Signature
import ClassRefactor.Proofs.Growth.Splice

/-!
# A file with a constructor extended

What is added to a constructor exchanges a part of it. The file then declares the classes that it
declared, and the class of the constructor has it with what was added.
-/

namespace ClassRefactor

namespace SourceFile

/-- Where a constructor of a class stands in the source, and what it is on its own. -/
structure ConstructorAt (text : Text) (c : ParsedClass) (k : Nat) (m : Constructor)
    (p x q : Source) (start : Nat) (l : CallableLayout) : Prop
    extends MemberAt text c.layout k (.constructor m) p x q where
  parts : Source.ConstructorAt x (Text.cells c.node.name.toList) start l m

section

variable {text : Text} {d : ParsedClass} {k : Nat} {m : Constructor} {p x q : Source}
  {start : Nat} {l : CallableLayout} {block : BlockLayout}
  (h : ConstructorAt text d k m p x q start l)
  (hend : x.masked.size = block.closing + 1) {a b c : Text}
  (hgap : ClosingGap text a b c (Code.afterStatementBlock text.mask.cells)
    (p.masked.size + block.opening) (p.masked.size + block.closing))
include h hend hgap

/-- The parts of a constructor around the gap at the end of its block. -/
theorem ConstructorAt.exists_gap {u r : Source} (hu : u.masked.size = a.size) (hue : u.Even)
    (htext : Source.ofText text = u ++ Source.plain b ++ r)
    (hbrace : r.masked.cells.head? = some '}') :
    ∃ v e : Source, u = p ++ v ∧ x = v ++ Source.plain b ++ e ∧ r = e ++ q ∧ v.Even ∧ e.Even ∧
      e.masked.cells = ['}'] ∧ block.opening < v.masked.size ∧
      block.closing = (v ++ Source.plain b).masked.size := by
  have hopening := hgap.before
  have hclosing := hgap.behind
  obtain ⟨hp, hx, hq⟩ := h.even
  have heq := h.eq
  rw [Source.append_assoc] at heq htext
  obtain ⟨v, rfl, hrest, hv⟩ := Source.exists_between (heq.symm.trans htext) hp hue (by omega)
  rw [Source.masked_append, Text.size_append] at hu
  have hsize : (v ++ Source.plain b).masked.size = block.closing := by
    rw [Source.masked_append, Text.size_append]
    rw [Text.size_append] at hclosing
    have hplain : (Source.plain b).masked.size = b.size := rfl
    omega
  rw [← Source.append_assoc] at hrest
  obtain ⟨e, rfl, rfl, he⟩ := Source.exists_between hrest.symm (hv.append (Source.even_plain b)) hx
    (by omega)
  rw [Source.masked_append, Text.size_append, hsize] at hend
  refine ⟨v, e, rfl, rfl, rfl, hv, he, ?_, by omega, hsize.symm⟩
  rw [Source.masked_append, Text.cells_append] at hbrace
  have hlen : e.masked.cells.length = 1 := by
    rw [Text.length_cells]
    omega
  obtain ⟨d, hd⟩ := List.length_eq_one_iff.mp hlen
  rw [hd] at hbrace ⊢
  obtain rfl := Option.some.inj hbrace
  rfl

end

/-- Where the block of a member has no statement open in the source, it has none open in the member
on its own. -/
theorem statementCut_of_settled {text b : Text} {p v r : Source} {opening n : Nat}
    (hsource : Source.ofText text = p ++ v ++ Source.plain b ++ r)
    (hends : Code.EndsAt v.masked.cells n)
    (hblanks : ∀ c ∈ (Source.plain b).masked.cells, isLayoutBlank c = true)
    (hopening : opening < v.masked.size)
    (hopen : (Segment.endedFrom text.mask.cells (Code.afterStatementBlock text.mask.cells)
      (p.masked.size + (v ++ Source.plain b).masked.size) {} (p.masked.size + opening + 1)
      ((p ++ v).masked.cells.drop (p.masked.size + opening + 1))).2 = {}) :
    (Code.statementCut v.masked.cells (opening + 1)).2 = {} := by
  have hcells : text.mask.cells = p.masked.cells ++ (v.masked.cells ++
      (Source.plain b).masked.cells) ++ r.masked.cells := by
    change (Source.ofText text).masked.cells = _
    rw [hsource]
    simp [Text.cells_append]
  have hlength : (v ++ Source.plain b).masked.size =
      (v.masked.cells ++ (Source.plain b).masked.cells).length := by
    rw [List.length_append, Text.length_cells, Text.length_cells, Source.masked_append,
      Text.size_append]
  rw [hcells, hlength, Source.masked_append p, Text.cells_append p.masked, ← Text.length_cells,
    Nat.add_assoc, ← List.drop_drop, List.drop_left] at hopen
  exact Code.statementCut_of_member hends hblanks (by rw [Text.length_cells]; omega) hopen

variable {text : Text} {file : SourceFile} (hfile : parse text = .ok file) {i : Nat}
  {d : ParsedClass} (hd : file.classes[i]? = some d) {k : Nat} {m : Constructor} {p x q : Source}
  {start : Nat} {l : CallableLayout} {block : BlockLayout}
include hfile hd

theorem cells_name : Text.cells d.node.name.toList =
    Code.window text.mask.cells d.layout.name.start d.layout.name.stop := by
  obtain ⟨hlayout, hnode⟩ := layout_of_mem_classes hfile (List.mem_of_getElem? hd)
  exact ClassLayout.cells_name hlayout hnode

theorem exists_constructorAt (hm : d.node.members[k]? = some (.constructor m)) :
    ∃ p x q start l, ConstructorAt text d k m p x q start l := by
  obtain ⟨p, x, q, h⟩ := exists_memberAt hfile (List.mem_of_getElem? hd) hm
  have hmember := h.member
  rw [← cells_name hfile hd] at hmember
  obtain ⟨start, l, hparts, -⟩ := Source.exists_constructorAt hmember
  exact ⟨p, x, q, start, l, h, hparts⟩

/-- The layout of the constructor in its class. -/
theorem ConstructorAt.layout (h : ConstructorAt text d k m p x q start l) :
    ∃ layout, d.layout.members[k]? = some layout ∧
      layout.range = ⟨p.masked.size, (p ++ x).masked.size⟩ ∧
      layout.shape = .constructor (l.shift p.masked.size) := by
  refine ⟨_, h.found, ?_, ?_⟩
  · rw [← cells_name hfile hd, h.parts.found.memberLayout]
    simp [MemberLayout.shift, Range.shift]
  · rw [← cells_name hfile hd, h.parts.found.memberLayout]
    rfl

/-- The members of the class correspond one by one when statements are added to the block of one. -/
theorem ConstructorAt.memberRanges_moved {v e : Source} {b t : Text}
    (h : ConstructorAt text d k m p (v ++ Source.plain b ++ e) q start l)
    (hblock : l.body = .block block) (hlast : e.masked.cells = ['}'])
    (hopening : block.opening < v.masked.size)
    (hclosing : block.closing = (v ++ Source.plain b).masked.size)
    (hblanks : ∀ c ∈ b.cells, isLayoutBlank c = true)
    (hflat : ∀ c ∈ t.cells, Segment.isFlat c = true) (hunassigned : Code.Unassigned t.cells)
    {j : Nat} (hpos : 0 < j) (hj : j ≤ (e ++ q).masked.size)
    (hend : d.layout.closing = (p ++ v ++ Source.plain b).masked.size + j) :
    List.Forall₂ (Range.Moved (p ++ v).masked.cells (Source.plain b).masked.cells
        (Source.plain t).masked.cells)
      (Code.memberRanges (p ++ v ++ Source.plain b ++ (e ++ q)).masked.cells (d.layout.opening + 1)
        ((p ++ v ++ Source.plain b).masked.size + j))
      (Code.memberRanges (p ++ v ++ Source.plain t ++ (e ++ q)).masked.cells (d.layout.opening + 1)
        ((p ++ v ++ Source.plain t).masked.size + j)) := by
  have hcells : ∀ u : Text, (p ++ v ++ Source.plain u ++ (e ++ q)).masked.cells =
      (p ++ v).masked.cells ++ (Source.plain u).masked.cells ++ (e ++ q).masked.cells :=
    fun u => Source.cells_masked ..
  have hsize : ∀ u : Text, (p ++ v ++ Source.plain u).masked.size =
      ((p ++ v).masked.cells ++ (Source.plain u).masked.cells).length := fun u => by
    rw [List.length_append, Text.length_cells, Text.length_cells, Source.masked_append (p ++ v),
      Text.size_append]
  have hbrace : (e ++ q).masked.cells.head? = some '}' := by
    rw [Source.masked_append, Text.cells_append, hlast]
    rfl
  obtain ⟨hopens, hunclosed⟩ : v.masked.cells[block.opening]? = some '{' ∧
      Code.closeFrom '{' '}' 0 (v.masked.cells.drop (block.opening + 1)) = none := by
    have hfound := h.parts.found
    rw [Source.cells_masked, hlast, List.append_assoc] at hfound
    have hlt : block.opening < v.masked.cells.length := by rwa [Text.length_cells]
    obtain ⟨-, -, hopens, -⟩ := hfound.block hblock
    rw [List.getElem?_append_left hlt] at hopens
    refine ⟨hopens, (hfound.closeFrom_front hblock hlt ?_ hblanks).1⟩
    rw [hclosing, List.length_append, Text.length_cells, Text.length_cells, Source.masked_append,
      Text.size_append]
  obtain ⟨hlayout, -⟩ := layout_of_mem_classes hfile (List.mem_of_getElem? hd)
  obtain ⟨hranges, -⟩ := Code.memberRanges_of_wellLaid (Code.classLayouts_spec hlayout).1
  have hr := List.mem_of_getElem? h.range
  have hfrom := (hranges.within _ hr).1
  have hassoc : p ++ (v ++ Source.plain b ++ e) ++ q = p ++ v ++ Source.plain b ++ (e ++ q) := by
    simp only [Source.append_assoc]
  change _ ∈ Code.memberRanges (Source.ofText text).masked.cells _ _ at hr
  rw [h.eq, hassoc, hend, hsize, hcells] at hr
  have hunassigned' := Code.Unassigned.of_brace hbrace
  -- The block as the source has it.
  have hfront : (p ++ v).masked.cells = p.masked.cells ++ v.masked.cells := by
    rw [Source.masked_append, Text.cells_append]
  have hopens' : (p ++ v).masked.cells[p.masked.size + block.opening]? = some '{' := by
    rw [hfront, ← Text.length_cells, List.getElem?_append_right (Nat.le_add_right ..),
      Nat.add_sub_cancel_left]
    exact hopens
  have hunclosed' : Code.closeFrom '{' '}' 0
      ((p ++ v).masked.cells.drop (p.masked.size + block.opening + 1)) = none := by
    rw [hfront, ← Text.length_cells, Nat.add_assoc, ← List.drop_drop, List.drop_left]
    exact hunclosed
  rw [hsize, hsize, hcells, hcells]
  refine Code.memberRanges_filled
    (fun c hc => (Segment.isFlat_of_isLayoutBlank (hblanks c hc)).1) hflat
    ((Code.unassigned_blanks hblanks).append hunassigned') (hunassigned.append hunassigned')
    (Nat.le_add_right_of_le hfrom) hopens' hunclosed' hbrace hpos (by rwa [Text.length_cells]) hr ?_
  rw [← hsize]
  have hone : e.masked.size = 1 := by rw [← Text.length_cells, hlast]; rfl
  simp only [Source.masked_append, Text.size_append, hone, Nat.add_assoc]

/-- Statements are added to a constructor in the gap at the end of its block. -/
theorem exists_filled (h : ConstructorAt text d k m p x q start l) (hblock : l.body = .block block)
    (hend : x.masked.size = block.closing + 1) {a b c : Text}
    (hgap : ClosingGap text a b c (Code.afterStatementBlock text.mask.cells)
      (p.masked.size + block.opening) (p.masked.size + block.closing))
    {added : List Statement} (hadded : ∀ s ∈ added, s.Legible) {t : Text}
    (hspaced : Segment.Spaced (added.map fun s => Text.cells s.render.toList) t.cells)
    (hfree : ∀ field parameter, .assignment field parameter ∈ added →
      field ∉ Code.continuations) :
    ∃ file' d' ss block' v z z', parse (a ++ t ++ c) = .ok file' ∧
      file'.classes.length = file.classes.length ∧ file'.classes[i]? = some d' ∧
      m.body = .block ss ∧
      d'.node = { d.node with
        members := d.node.members.set k (.constructor { m with body := .block (ss ++ added) }) } ∧
      x = v ++ z ∧ v.Even ∧ block.opening < v.masked.size ∧
      ConstructorAt (a ++ t ++ c) d' k { m with body := .block (ss ++ added) } p (v ++ z') q start
        { l with body := .block block' } := by
  have hquiet : ∀ e ∈ t, isQuiet e = true := fun e he =>
    quiet_statements hadded hspaced e (Text.mem_cells.mpr he)
  have hstar : t.head? ≠ some '*' := by
    rw [← Text.head?_cells]
    intro hhead
    rcases head_statements hadded hspaced hhead with hblank | hident
    · exact absurd hblank (by decide)
    · exact absurd hident (by decide)
  obtain ⟨u, r, -, hsize, hsource, hsource', hswap, hopen⟩ := hgap.exists_swap hquiet hstar
  obtain ⟨v, e, rfl, rfl, rfl, hv, he, hlast, hopening, hclosing⟩ :=
    h.exists_gap hend hgap hsize hswap.even.1 hsource hswap.brace
  obtain ⟨n', hswappable⟩ := hswap.exists_swappable (transparent_statements hadded hspaced)
    (mute_statements hadded hspaced)
  have hopens : v.masked.cells[block.opening]? = some '{' := by
    obtain ⟨-, -, hopens, -⟩ := h.parts.found.block hblock
    rwa [Source.append_assoc, Source.masked_append, Text.cells_append,
      List.getElem?_append_left (by rwa [Text.length_cells])] at hopens
  obtain ⟨n, hends, -⟩ := hswap.ends
  rw [Source.masked_append, Text.cells_append] at hends
  have hends := hends.right hopens (by decide)
  rw [hclosing] at hopen
  have hsettled := statementCut_of_settled hsource hends hswap.blanks hopening hopen
  have hsound := Source.sound_ofText text
  rw [h.eq] at hsound
  have hlocal := hsound.middle h.even.1 h.even.2.1
  have hplain : (Source.plain t).Sound := by
    have := Source.sound_ofText t
    rwa [Source.ofText, Text.mask_quiet hquiet] at this
  obtain ⟨block', ss, hbody, hparts⟩ := h.parts.grown
    ⟨⟨hv, Source.even_plain b, Source.even_plain t, he⟩, hlocal⟩ hlast hblock hopening hclosing
    hswap.blanks hends hsettled hplain hadded hspaced
    (apposite_statements hadded hspaced hfree)
  have hmember := hparts.member
  rw [cells_name hfile hd] at hmember
  have hsource'' : Source.ofText (a ++ t ++ c) = p ++ (v ++ Source.plain t ++ e) ++ q := by
    rw [hsource']
    simp only [Source.append_assoc]
  have hread := exists_swapped_member hfile hd h.toMemberAt hsource'' hv he hswap.toSwap hswappable
    (by rw [Source.masked_append, Text.size_append]; omega)
    (by rw [← Text.length_cells, hlast]; exact Nat.one_pos) ?_ hmember
  · obtain ⟨file', d', hfile', hlength, hd', hat, hnode⟩ := hread
    rw [Source.append_assoc] at hat hparts
    refine ⟨file', d', ss, block', v, _, _, hfile', hlength, hd', hbody, hnode,
      Source.append_assoc .., hv, hopening, ⟨hat, ?_⟩⟩
    rw [hnode]
    exact hparts
  · exact fun _ j hpos hj hend => h.memberRanges_moved hfile hd hblock hlast hopening hclosing
      hswap.blanks (flat_statements hadded hspaced)
      (unassigned_statements hadded hspaced) hpos hj hend

/-- A block of a member as its class lays it out. -/
theorem blockLayout_of_member {layout : MemberLayout} (hlayout : d.layout.members[k]? = some layout)
    {c : CallableLayout} (hc : layout.shape.callable? = some c) {b : BlockLayout}
    (hb : c.body.block? = some b) :
    b.WellLaid text.mask.cells c.closing layout.range.stop ∧
      b = Code.blockLayout text.mask.cells b.opening b.closing := by
  obtain ⟨hclass, -⟩ := layout_of_mem_classes hfile (List.mem_of_getElem? hd)
  have hmem := List.mem_of_getElem? hlayout
  obtain ⟨hlaid, -⟩ := Code.classLayouts_spec hclass
  obtain ⟨-, pos, stop, hbody⟩ := Code.classLayouts_callable? hclass hmem hc
  refine ⟨((hlaid.member layout hmem).callable c hc).block b hb, ?_⟩
  rw [Code.blockLayout, ← Code.statements_of_body? hbody hb]

/-- Statements that are written at the end of the block of a constructor are read back. -/
theorem exists_appended_statements (h : ConstructorAt text d k m p x q start l)
    (hblock : l.body = .block block) (hend : x.masked.size = block.closing + 1)
    (hsettled : (block.shift p.masked.size).Settled text) {style : Style} (hstyle : style.BlanksOnly)
    {added : List Statement} (hadded : ∀ s ∈ added, s.Legible)
    (hfree : ∀ field parameter, .assignment field parameter ∈ added →
      field ∉ Code.continuations) (name : String) :
    ∃ t file' d' ss block' v z z',
      (((block.shift p.masked.size).appendStatements text style added).toEdit name).applyTo text =
        .ok t ∧
      parse t = .ok file' ∧ file'.classes.length = file.classes.length ∧
      file'.classes[i]? = some d' ∧ m.body = .block ss ∧
      d'.node = { d.node with
        members := d.node.members.set k (.constructor { m with body := .block (ss ++ added) }) } ∧
      x = v ++ z ∧ v.Even ∧ block.opening < v.masked.size ∧
      ConstructorAt t d' k { m with body := .block (ss ++ added) } p (v ++ z') q start
        { l with body := .block block' } := by
  obtain ⟨layout, hlayout, -, hshape⟩ := h.layout hfile hd
  have hcallable : layout.shape.callable? = some (l.shift p.masked.size) := by rw [hshape]; rfl
  have hshifted : (l.shift p.masked.size).body.block? = some (block.shift p.masked.size) := by
    simp [CallableLayout.shift, hblock, BodyLayout.shift, BodyLayout.block?]
  obtain ⟨hlaid, heq⟩ := blockLayout_of_member hfile hd hlayout hcallable hshifted
  obtain ⟨a, e, t, c, hgap, hspaced, happly⟩ := BlockLayout.exists_closingGap hlaid.opens
    hlaid.closes hlaid.ordered heq hsettled hstyle added name
  have hcells : Segment.Spaced (added.map fun s => Text.cells s.render.toList) t.cells := by
    simpa using spaced_cells hspaced
  obtain ⟨file', d', ss, block', v, z, z', hfile', hlength, hd', hbody, hnode, hx, hv, hopening,
    hat⟩ := exists_filled hfile hd h hblock hend hgap hadded hcells hfree
  exact ⟨_, file', d', ss, block', v, z, z', happly, hfile', hlength, hd', hbody, hnode, hx, hv,
    hopening, hat⟩

/-- Parameters that are written behind those of a constructor are read back. -/
theorem exists_signed {u w : Source} (h : ConstructorAt text d k m p (u ++ w) q start l)
    (hseam : Source.ParameterSeam u w l) {t : Text} {added : List Parameter}
    (htext' : Source.ofText ((p ++ u).text ++ t ++ (w ++ q).text) =
      p ++ u ++ Source.plain t ++ (w ++ q))
    (hold : ∀ r ∈ l.params, r.Readable u.masked.cells)
    (hnew : ∃ ls, Code.parameters? (u ++ Source.plain t ++ w).masked.cells l.opening
        (u ++ Source.plain t).masked.size = some (l.params ++ ls) ∧
      List.Forall₂ (Code.TellsWithin (u ++ Source.plain t ++ w).masked.cells u.masked.size
        (u ++ Source.plain t).masked.size) ls added)
    (hadded : ∀ r ∈ added, r.Legible)
    (hinsert : ∀ b : Code, (∀ c ∈ b, isLayoutBlank c = true) →
      u.masked.size + b.length = l.closing → Code.Insertable t.cells b)
    (hfront : (∃ n, Code.EndsAt (p ++ u).masked.cells n) ∨ ∀ r : Code, Code.Halting (t.cells ++ r)) :
    ∃ file' d', parse ((p ++ u).text ++ t ++ (w ++ q).text) = .ok file' ∧
      file'.classes.length = file.classes.length ∧ file'.classes[i]? = some d' ∧
      d'.node = { d.node with
        members := d.node.members.set k
          (.constructor { m with parameters := m.parameters ++ added }) } := by
  obtain ⟨ls, hls, htells⟩ := hnew
  obtain ⟨-, -, hclose⟩ := Code.matchingClose?_spec h.parts.found.closing
  obtain ⟨b, rest, hw, hb, hsize⟩ := hseam.exists_paren hclose
  have hinsert := hinsert b hb hsize
  have hempty : ∀ z : Source, z ++ Source.plain [] = z := Source.append_empty
  have hcells : (w ++ q).masked.cells = b ++ ')' :: (rest ++ q.masked.cells) := by
    rw [Source.masked_append, Text.cells_append, hw, List.append_assoc, List.cons_append]
  have hparen : 0 < w.masked.size := by
    rw [← Text.length_cells, hw, List.length_append]
    exact Nat.lt_of_lt_of_le (Nat.succ_pos _) (Nat.le_add_left ..)
  have hmember : MemberAt text d.layout k (.constructor m) p (u ++ Source.plain [] ++ w) q := by
    rw [hempty]
    exact h.toMemberAt
  have hsource : Source.ofText text = p ++ u ++ Source.plain [] ++ (w ++ q) := by
    rw [hempty, h.eq]
    simp only [Source.append_assoc]
  have hswap : Source.Swap (p ++ u) (Source.plain []) (Source.plain t) (w ++ q) := by
    refine ⟨⟨h.even.1.append hseam.even.1, Source.even_plain _, Source.even_plain _,
      hseam.even.2.append h.even.2.2⟩, ?_⟩
    rw [← hsource]
    exact Source.sound_ofText text
  have hsound := Source.sound_ofText text
  rw [h.eq] at hsound
  have hsound' := Source.sound_ofText ((p ++ u).text ++ t ++ (w ++ q).text)
  have hassoc : p ++ u ++ Source.plain t ++ (w ++ q) = p ++ (u ++ Source.plain t ++ w) ++ q := by
    simp only [Source.append_assoc]
  rw [htext', hassoc] at hsound'
  obtain ⟨k', hparts⟩ := h.parts.withParams hseam (hsound.middle h.even.1 h.even.2.1)
    (hsound'.middle h.even.1 ((hseam.even.1.append (Source.even_plain t)).append hseam.even.2)) hold
    hinsert.closed hls htells hadded
  have hread := hparts.member
  rw [cells_name hfile hd] at hread
  obtain ⟨n, hswappable⟩ : ∃ n, Code.Swappable (p ++ u).masked.cells [] t.cells
      (b ++ ')' :: (rest ++ q.masked.cells)) n := by
    rcases hfront with ⟨n, hends⟩ | hhalting
    · exact ⟨n, hinsert.swappable hb (.inl hends)⟩
    · exact ⟨_, hinsert.swappable hb (.inr ⟨rfl, hhalting _⟩)⟩
  rw [← hcells] at hswappable
  have hswapped := exists_swapped_member hfile hd hmember (htext'.trans hassoc) hseam.even.1
    hseam.even.2 hswap hswappable (by rw [hempty]; exact Nat.zero_lt_of_lt hseam.opening) hparen
    (fun hopening j hpos hj hend => ?_) hread
  · obtain ⟨file', d', hfile', hlength, hd', -, hnode⟩ := hswapped
    exact ⟨file', d', hfile', hlength, hd', hnode⟩
  · have hr := List.mem_of_getElem? hmember.range
    change _ ∈ Code.memberRanges (Source.ofText text).masked.cells _ _ at hr
    rw [hsource, hend] at hr
    have hsize : ∀ z : Source, (p ++ u ++ z).masked.size =
        ((p ++ u).masked.cells ++ z.masked.cells).length := fun z => by
      rw [List.length_append, Text.length_cells, Text.length_cells, Source.masked_append (p ++ u),
        Text.size_append]
    rw [hsize, Source.cells_masked, hcells] at hr
    rw [hsize, hsize, Source.cells_masked, Source.cells_masked, hcells]
    have hbefore := hseam.opening
    refine hinsert.memberRanges_moved hb (by rwa [Text.length_cells]) hpos
      (by rwa [← hcells, Text.length_cells]) hr ?_ ?_
    · simp only [Text.length_cells, Source.masked_append, Text.size_append]
      omega
    · simp only [hempty, Text.length_cells, Source.masked_append, Text.size_append]
      omega

section

variable {u w : Source} (h : ConstructorAt text d k m p (u ++ w) q start l)
  (heven : u.Even ∧ w.Even) {added : List Parameter} (hadded : ∀ r ∈ added, r.Legible)
  (hne : added ≠ [])
include h heven hadded hne

/-- Parameters that are written with commas behind the last parameter are read back. -/
theorem exists_signed_behind {last : ParameterLayout} (hlast : l.params.getLast? = some last)
    (hcut : u.masked.size = last.range.stop)
    (hlevel : Code.Level (u.masked.cells.drop (l.opening + 1))) (hline : u.text.getLast? ≠ some '\n')
    {s s' : Code} (hs : ∀ c ∈ s, isLayoutBlank c = true) (hs' : ∀ c ∈ s', isLayoutBlank c = true)
    {t : Text} (ht : t.cells = Code.addedCells s s' added) :
    ∃ file' d', parse ((p ++ u).text ++ t ++ (w ++ q).text) = .ok file' ∧
      file'.classes.length = file.classes.length ∧ file'.classes[i]? = some d' ∧
      d'.node = { d.node with
        members := d.node.members.set k
          (.constructor { m with parameters := m.parameters ++ added }) } := by
  have hfound := h.parts.found
  obtain ⟨-, -, hclose⟩ := Code.matchingClose?_spec hfound.closing
  have hparams := hfound.params
  have hmem := List.mem_of_getLast? hlast
  obtain ⟨hseam, e, he, hsolid⟩ := h.parts.parameterSeam heven hlast hcut
  obtain ⟨b, rest, hw, hb, -⟩ := hseam.exists_paren hclose
  have hend : (p ++ u).masked.cells.getLast? = some e := by
    rw [Source.masked_append, Text.cells_append, List.getLast?_append, he]
    rfl
  have hnext : ∃ e, (w ++ q).masked.cells.head? = some e ∧ (isLayoutBlank e = true ∨ e = ')') := by
    rw [Source.masked_append, Text.cells_append, hw]
    cases b with
    | nil => exact ⟨')', rfl, .inr rfl⟩
    | cons f b => exact ⟨f, rfl, .inl (hb f List.mem_cons_self)⟩
  obtain ⟨⟨c, hc, hfirst⟩, e', he', hsolid'⟩ := @Code.ends_addedCells s s' hs added hadded hne
  rw [← ht, Text.head?_cells] at hc
  rw [← ht, Text.getLast?_cells] at he'
  have hsource : Source.ofText text = p ++ u ++ (w ++ q) := by
    rw [h.eq]
    simp only [Source.append_assoc]
  have htext' := Source.ofText_put_behind hsource (h.even.1.append heven.1) ⟨e, hend, hsolid⟩
    (fun hnewline => hline ?_) hnext (t := t) (fun d hd => quiet_addedCells hs hs' hadded d
      (ht ▸ Text.mem_cells.mpr hd)) ⟨c, hc, hfirst⟩ ⟨e', he', hsolid'⟩
  · have hold := fun hopening => @Code.exists_parameters?_further u.masked.cells w.masked.cells
      l.opening hopening l.closing l.params
    rw [← Text.cells_append, ← Source.masked_append, Text.length_cells] at hold
    have hopens := hfound.opens
    rw [Source.masked_append, Text.cells_append,
      List.getElem?_append_left (by rw [Text.length_cells]; exact hseam.opening)] at hopens
    have hsize : (u ++ Source.plain t).masked.size = (u.masked.cells ++ t.cells).length := by
      simp [Source.plain]
    obtain ⟨hold, ls, hls, htells⟩ := hold hseam.opening hparams (List.ne_nil_of_mem hmem) hopens
      hclose hseam.closing hseam.blanks hlevel hs hs' hadded ht.symm
    refine exists_signed hfile hd h hseam htext' hold ⟨ls, ?_, ?_⟩ hadded
      (fun b hb _ => ht ▸ Code.insertable_addedCells hs hs' hadded hb)
      (.inr fun r => ht ▸ Code.halting_addedCells hs hne r)
    · rw [hsize, Source.cells_masked]
      exact hls
    · rw [hsize, Source.cells_masked]
      exact htells
  · have hpos := hseam.opening
    have heq : u.text.size = u.masked.size := heven.1
    rwa [Source.text_append, List.getLast?_append_of_ne_nil] at hnewline
    intro hnil
    have hzero : u.text.size = 0 := by rw [hnil]; rfl
    omega

/-- Parameters that are written between empty parentheses are read back. -/
theorem exists_signed_before (hnil : l.params = []) (hcut : u.masked.size = l.closing)
    (hblanks : ∀ c ∈ u.masked.cells.drop (l.opening + 1), isLayoutBlank c = true) {t : Text}
    (ht : t = (renderParameters added).toList) :
    ∃ file' d', parse ((p ++ u).text ++ t ++ (w ++ q).text) = .ok file' ∧
      file'.classes.length = file.classes.length ∧ file'.classes[i]? = some d' ∧
      d'.node = { d.node with
        members := d.node.members.set k
          (.constructor { m with parameters := m.parameters ++ added }) } := by
  have hfound := h.parts.found
  obtain ⟨-, hordered, hclose⟩ := Code.matchingClose?_spec hfound.closing
  obtain ⟨r, added, rfl⟩ := List.exists_cons_of_ne_nil hne
  have hseam : Source.ParameterSeam u w l := by
    refine ⟨heven, by omega, by omega, ?_⟩
    rw [hcut, Code.window_of_le (Nat.le_refl _)]
    simp
  have hopens := hfound.opens
  rw [Source.masked_append, Text.cells_append,
    List.getElem?_append_left (by rw [Text.length_cells]; omega)] at hopens
  have hparen : (w ++ q).masked.cells.head? = some ')' := by
    rw [Source.masked_append, Text.cells_append, ← hcut, ← Text.length_cells,
      List.getElem?_append_right (Nat.le_refl _), Nat.sub_self, ← List.head?_eq_getElem?] at hclose
    rw [Source.masked_append, Text.cells_append, List.head?_append, hclose]
    rfl
  have hsource : Source.ofText text = p ++ u ++ (w ++ q) := by
    rw [h.eq]
    simp only [Source.append_assoc]
  have hcells : t.cells = Text.cells r.render.toList ++ Code.addedCells [] [' '] added := by
    rw [ht, cells_renderParameters]
  have htext' := Source.ofText_put_before hsource (h.even.1.append heven.1) hparen (t := t)
    (ht ▸ quiet_renderParameters hadded) ?_
  · obtain ⟨ls, hls, htells⟩ := Code.exists_parameters?_first (u := u.masked.cells)
      (w := w.masked.cells) (by rw [Text.length_cells]; exact hseam.opening) hblanks hadded
      (congrArg Text.cells ht.symm)
    have hsize : (u ++ Source.plain t).masked.size = (u.masked.cells ++ t.cells).length := by
      simp [Source.plain]
    refine exists_signed hfile hd h hseam htext' (by simp [hnil]) ⟨ls, ?_, ?_⟩ hadded
      (fun b hb hlen => ?_) (.inl ⟨p.masked.size + l.opening, ?_⟩)
    · rw [hsize, Source.cells_masked, hnil]
      exact hls
    · rw [hsize, Source.cells_masked]
      rwa [Text.length_cells] at htells
    · obtain rfl : b = [] := List.eq_nil_of_length_eq_zero (by omega)
      rw [ht]
      exact Code.insertable_renderParameters hadded
    · have hend : (p ++ u).masked.cells[p.masked.size + l.opening]? = some '(' := by
        rw [Source.masked_append, Text.cells_append,
          List.getElem?_append_right (by rw [Text.length_cells]; omega), Text.length_cells,
          Nat.add_sub_cancel_left]
        exact hopens
      refine ⟨⟨'(', hend, by decide⟩, fun c hc => hblanks c ?_⟩
      rw [Source.masked_append, Text.cells_append, List.drop_append,
        List.drop_eq_nil_of_le (by rw [Text.length_cells]; omega), List.nil_append,
        Text.length_cells] at hc
      rwa [show l.opening + 1 = p.masked.size + l.opening + 1 - p.masked.size by omega]
  · obtain ⟨c, hc, -⟩ := (hadded r List.mem_cons_self).head
    rw [← Text.head?_cells, hcells, List.head?_append, hc]
    intro hstar
    exact ((hadded r List.mem_cons_self).head_ne hc).2.2.2 (Option.some.inj hstar)

end

end SourceFile

end ClassRefactor
