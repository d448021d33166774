import ClassRefactor.Proofs.Edit.Apart
import ClassRefactor.Proofs.Growth.Extension
import ClassRefactor.Proofs.Splice.Class

/-!
# A constructor completed

Parameters are written behind those of a constructor, with what stands between the last two of them,
or between its parentheses if they are empty. Where nothing is open there, they are read back, also
when statements have been added to the block.
-/

namespace ClassRefactor

/-- A plan of which everything can be read back from what it is written as. -/
structure ConstructorPlan.Legible (plan : ConstructorPlan) : Prop where
  parameters : ∀ p ∈ plan.parameters, p.Legible
  assignments : ∀ s ∈ plan.assignments, s.Legible

namespace CallableLayout

/-- Text that adds parameters to those of a callable: a list of them if it has none, and otherwise
each of them behind a comma with blanks around it. -/
def Adds (c : CallableLayout) (added : List Parameter) (t : Text) : Prop :=
  (c.params = [] ∧ t = (renderParameters added).toList) ∨
    (c.params ≠ [] ∧ ∃ s s' : Code, (∀ d ∈ s, isLayoutBlank d = true) ∧
      (∀ d ∈ s', isLayoutBlank d = true) ∧ t.cells = Code.addedCells s s' added)

section

variable {text : Text} {c : CallableLayout}
  (hopens : text.mask.cells[c.opening]? = some '(')
  (hcloses : text.mask.cells[c.closing]? = some ')') (hlt : c.opening < c.closing)
  (hparams : Code.parameters? text.mask.cells c.opening c.closing = some c.params)
  {style : Style} (hstyle : style.BlanksOnly)
include hopens hcloses hlt hparams hstyle

/-- What is written between parameters is a comma with blanks around it. -/
theorem exists_parameterSeparator : ∃ x y : Text,
    (c.parameterSeparator text style).toList = x ++ ',' :: y ∧
      (∀ d ∈ x, isLayoutBlank d = true) ∧ ∀ d ∈ y, isLayoutBlank d = true := by
  have hcomma : ∃ x y : Text, (", ").toList = x ++ ',' :: y ∧ (∀ d ∈ x, isLayoutBlank d = true) ∧
      ∀ d ∈ y, isLayoutBlank d = true := ⟨[], [' '], rfl, by simp, by decide⟩
  unfold parameterSeparator
  split
  · exact hcomma
  · split
    · rename_i only _ _
      refine ⟨[], style.newline.toList ++ (text.lineIndent only.range.start).toList,
        by simp [String.toList_append], by simp, fun d hd => ?_⟩
      exact (List.mem_append.mp hd).elim (hstyle.newline d) (Text.blanks_lineIndent _ _ d)
    · exact hcomma
  · rename_i last earlier rest hends
    have hinside := Nat.le_of_lt (List.getElem?_eq_some_iff.mp hcloses).1
    obtain ⟨hlaid, hreadable⟩ := Code.parameters?_spec hlt (Code.seam_of_solid hopens (by decide)).2
      (Code.seam_of_solid hcloses (by decide)).1 hparams
    have hmem : ∀ r ∈ [last, earlier], r ∈ c.params := by
      intro r hr
      rw [← List.mem_reverse, hends]
      exact List.mem_append_left rest hr
    have hlast := hmem last (by simp)
    have hearlier := hmem earlier (by simp)
    obtain ⟨hstart, hwide, -⟩ := hlaid.within earlier.range (List.mem_map_of_mem hearlier)
    have hordered : earlier.range.stop ≤ last.range.start := by
      have hpairs := hlaid.ordered
      rw [List.pairwise_map, ← List.reverse_reverse c.params, List.pairwise_reverse, hends] at hpairs
      exact List.rel_of_pairwise_cons hpairs List.mem_cons_self
    dsimp only
    split
    · rename_i htrim
      rw [String.toList_ofList]
      exact Text.exists_separator (Text.isBoundary_of_seam (hreadable earlier hearlier).range.2.2)
        (Text.isBoundary_of_seam (hreadable last hlast).range.2.1) hordered
        (Code.solid_of_parameters? hlt hinside hparams hearlier hwide) (by omega)
        (fun n hn hn' => Code.between_of_parameters? hlt hinside hparams hends hn hn')
        (beq_iff_eq.mp htrim)
    · exact hcomma

/-- Added parameters are written where the parameters end, as a list or behind commas. -/
theorem exists_adds (added : List Parameter) :
    ∃ s, c.appendParameters text style added = ⟨.emptyAt c.parameterStop, s⟩ ∧
      c.Adds added s.toList := by
  obtain ⟨x, y, hseparator, hx, hy⟩ :=
    exists_parameterSeparator hopens hcloses hlt hparams hstyle
  unfold appendParameters parameterStop
  cases hlast : c.params.getLast? with
  | none => exact ⟨_, rfl, .inl ⟨List.getLast?_eq_none_iff.mp hlast, rfl⟩⟩
  | some last =>
    refine ⟨_, rfl, .inr ⟨List.ne_nil_of_mem (List.mem_of_getLast? hlast), x.cells, y.cells,
      fun d hd => hx d (Text.mem_cells.mp hd), fun d hd => hy d (Text.mem_cells.mp hd), ?_⟩⟩
    generalize c.parameterSeparator text style = separator at hseparator
    induction added with
    | nil => rfl
    | cons p added ih =>
      rw [Code.addedCells] at ih
      rw [Code.addedCells, List.flatMap_cons, ← ih, List.map_cons, concat]
      simp only [String.toList_append, hseparator, Text.cells_append, Text.cells_cons,
        List.append_assoc, List.cons_append]
      rfl

end

theorem parameterStop_shift (c : CallableLayout) (n : Nat) :
    (c.shift n).parameterStop = n + c.parameterStop := by
  simp only [parameterStop, shift, List.getLast?_map]
  cases c.params.getLast? with
  | none => rfl
  | some last => rfl

/-- A callable to which parameters can be added: none of its parameters leaves a bracket open, and
the last one does not end in a literal that the end of its line cuts off. Empty parentheses have only
blanks between them. -/
structure Continuable (c : CallableLayout) (text : Text) : Prop where
  brackets : Code.bracketsBefore text.mask.cells (c.opening + 1) c.parameterStop = 0
  angles : Code.anglesBefore text.mask.cells (c.opening + 1) c.parameterStop = 0
  line : c.params ≠ [] → text.cells[c.parameterStop - 1]? ≠ some '\n'
  blanks : c.params = [] →
    ∀ d ∈ Code.window text.mask.cells (c.opening + 1) c.closing, isLayoutBlank d = true

instance (c : CallableLayout) (text : Text) : Decidable (c.Continuable text) :=
  decidable_of_iff
    ((Code.bracketsBefore text.mask.cells (c.opening + 1) c.parameterStop = 0 ∧
        Code.anglesBefore text.mask.cells (c.opening + 1) c.parameterStop = 0) ∧
      (c.params ≠ [] → text.cells[c.parameterStop - 1]? ≠ some '\n') ∧
      (c.params = [] →
        ∀ d ∈ Code.window text.mask.cells (c.opening + 1) c.closing, isLayoutBlank d = true))
    ⟨fun h => ⟨h.1.1, h.1.2, h.2.1, h.2.2⟩, fun h => ⟨⟨h.brackets, h.angles⟩, h.line, h.blanks⟩⟩

end CallableLayout

/-- The part of a constructor up to where parameters can be added to it. -/
structure Source.ParameterEnd (u : Source) (l : CallableLayout) : Prop where
  stop : u.masked.size = l.parameterStop
  level : Code.Level (u.masked.cells.drop (l.opening + 1))
  line : l.params ≠ [] → u.text.getLast? ≠ some '\n'
  blanks : l.params = [] → ∀ c ∈ u.masked.cells.drop (l.opening + 1), isLayoutBlank c = true

namespace SourceFile

/-- A constructor is cut where parameters can be added to it. -/
theorem ConstructorAt.exists_parameterEnd {text : Text} {d : ParsedClass} {k : Nat} {m : Constructor}
    {p x q : Source} {start : Nat} {l : CallableLayout}
    (h : ConstructorAt text d k m p x q start l)
    (hcontinuable : (l.shift p.masked.size).Continuable text) :
    ∃ u w : Source, x = u ++ w ∧ u.Even ∧ u.ParameterEnd l ∧ u.masked.size ≤ l.closing := by
  have hfound := h.parts.found
  obtain ⟨-, hordered, hclose⟩ := Code.matchingClose?_spec hfound.closing
  have hreadable := hfound.readable
  have hsound := Source.sound_ofText text
  rw [h.eq] at hsound
  obtain ⟨hlaid, -⟩ := Code.parameters?_spec hordered (Code.seam_of_solid hfound.opens (by decide)).2
    (Code.seam_of_solid hclose (by decide)).1 hfound.params
  have hstop : Code.Seam x.masked.cells l.parameterStop ∧ l.opening < l.parameterStop ∧
      l.parameterStop ≤ l.closing := by
    unfold CallableLayout.parameterStop
    cases hlast : l.params.getLast? with
    | none => exact ⟨(Code.seam_of_solid hclose (by decide)).1, hordered, Nat.le_refl _⟩
    | some last =>
      have hmem := List.mem_of_getLast? hlast
      obtain ⟨hfrom, hwide, hto⟩ := hlaid.within last.range (List.mem_map_of_mem hmem)
      exact ⟨(hreadable.params last hmem).range.2.2,
        Nat.lt_trans (Nat.lt_of_succ_le hfrom) hwide, hto⟩
  obtain ⟨hseam, hbefore, hbehind⟩ := hstop
  obtain ⟨u, w, rfl, hu, -, hsize⟩ :=
    (hsound.middle h.even.1 h.even.2.1).exists_cut h.even.2.1 hseam
  rw [← hsize] at hbefore
  have heq : Source.ofText text = p ++ u ++ (w ++ q) := by
    rw [h.eq]
    simp only [Source.append_assoc]
  have hmask : text.mask.cells = p.masked.cells ++ u.masked.cells ++ (w ++ q).masked.cells := by
    change (Source.ofText text).masked.cells = _
    rw [heq]
    simp only [Source.masked_append, Text.cells_append]
  have hshift : (l.shift p.masked.size).parameterStop = p.masked.cells.length +
      u.masked.cells.length := by
    rw [l.parameterStop_shift, Text.length_cells, Text.length_cells, hsize]
  have hopening : (l.shift p.masked.size).opening + 1 = p.masked.cells.length + (l.opening + 1) := by
    rw [Text.length_cells, ← Nat.add_assoc]
    rfl
  have hwindow : Code.window text.mask.cells ((l.shift p.masked.size).opening + 1)
      (l.shift p.masked.size).parameterStop = u.masked.cells.drop (l.opening + 1) := by
    rw [hshift, hopening, hmask, (Code.shows_append _ _ _).window (Nat.le_refl _),
      Code.window_length]
  have hsame : (l.shift p.masked.size).params = [] ↔ l.params = [] := List.map_eq_nil_iff
  refine ⟨u, w, rfl, hu, ⟨hsize, ?_, fun hne hnewline => ?_, fun hnil c hc => ?_⟩,
    hsize ▸ hbehind⟩
  · rw [← hwindow]
    refine Code.level_window ?_ ?_ hcontinuable.brackets hcontinuable.angles
    · rw [hshift, hopening, Text.length_cells u.masked]
      omega
    · rw [hshift, hmask]
      simp
  · refine hcontinuable.line (fun hnil => hne (hsame.mp hnil)) ?_
    have htext : text = (p ++ u).text ++ (w ++ q).text := congrArg Source.text heq
    have hlength : (l.shift p.masked.size).parameterStop = (p ++ u).text.cells.length := by
      rw [hshift, Text.length_cells, Text.length_cells, Text.length_cells, Source.text_append,
        Text.size_append, h.even.1, hu]
    have hpos : 0 < (p ++ u).text.cells.length := by
      rw [← hlength, hshift, Text.length_cells u.masked]
      omega
    rw [htext, Text.cells_append, hlength, List.getElem?_append_left (by omega),
      ← List.getLast?_eq_getElem?, Text.getLast?_cells, Source.text_append, List.getLast?_append, hnewline]
    rfl
  · refine hcontinuable.blanks (hsame.mpr hnil) c ?_
    have hstop : (l.shift p.masked.size).closing = (l.shift p.masked.size).parameterStop := by
      simp [CallableLayout.parameterStop, hsame.mpr hnil]
    rwa [hstop, hwindow]

section

variable {text : Text} {file : SourceFile} (hfile : parse text = .ok file) {i : Nat}
  {d : ParsedClass} (hd : file.classes[i]? = some d) {k : Nat} {m : Constructor} {p q : Source}
  {start : Nat} {l : CallableLayout}
include hfile hd

theorem ConstructorAt.exists_adds {x : Source} (h : ConstructorAt text d k m p x q start l)
    {style : Style} (hstyle : style.BlanksOnly) (added : List Parameter) :
    ∃ s, (l.shift p.masked.size).appendParameters text style added =
        ⟨.emptyAt (l.shift p.masked.size).parameterStop, s⟩ ∧ l.Adds added s.toList := by
  obtain ⟨layout, hlayout, -, hshape⟩ := h.layout hfile hd
  have hcallable : layout.shape.callable? = some (l.shift p.masked.size) := by rw [hshape]; rfl
  obtain ⟨hclass, -⟩ := layout_of_mem_classes hfile (List.mem_of_getElem? hd)
  have hmem := List.mem_of_getElem? hlayout
  obtain ⟨hlaid, -⟩ := Code.classLayouts_spec hclass
  obtain ⟨hparams, -⟩ := Code.classLayouts_callable? hclass hmem hcallable
  have hwell := (hlaid.member layout hmem).callable _ hcallable
  obtain ⟨s, hs, hadds⟩ := CallableLayout.exists_adds hwell.opens hwell.closes hwell.ordered hparams
    hstyle added
  have hsame : (l.shift p.masked.size).params = [] ↔ l.params = [] := List.map_eq_nil_iff
  rw [CallableLayout.Adds, ne_eq, hsame] at hadds
  exact ⟨s, hs, hadds⟩

/-- Parameters that are added where those of a constructor end are read back. -/
theorem exists_signed_at {u w : Source} (h : ConstructorAt text d k m p (u ++ w) q start l)
    (hu : u.Even) (hend : u.ParameterEnd l) {added : List Parameter}
    (hadded : ∀ r ∈ added, r.Legible) (hne : added ≠ []) {e : TextEdit}
    (hrange : e.range = .emptyAt (l.shift p.masked.size).parameterStop)
    (hadds : l.Adds added e.replacement.toList) :
    ∃ t' file' d', e.applyTo text = .ok t' ∧ parse t' = .ok file' ∧
      file'.classes.length = file.classes.length ∧ file'.classes[i]? = some d' ∧
      d'.node = { d.node with
        members := d.node.members.set k
          (.constructor { m with parameters := m.parameters ++ added }) } := by
  have hw : w.Even := h.even.2.1.of_append hu
  have heq : Source.ofText text = p ++ u ++ (w ++ q) := by
    rw [h.eq]
    simp only [Source.append_assoc]
  have htext : text = (p ++ u).text ++ (w ++ q).text := congrArg Source.text heq
  have hstop : e.range = .emptyAt (p ++ u).text.size := by
    rw [hrange, l.parameterStop_shift, ← hend.stop, Source.text_append, Text.size_append, h.even.1, hu]
  have happly := TextEdit.applyTo_emptyAt e (c := (w ++ q).text) hstop
  rw [← htext] at happly
  rcases hadds with ⟨hnil, ht⟩ | ⟨hsome, s, s', hs, hs', ht⟩
  · have hcut : u.masked.size = l.closing := by
      rw [hend.stop, CallableLayout.parameterStop, hnil]
      rfl
    obtain ⟨file', d', hread⟩ := exists_signed_before hfile hd h ⟨hu, hw⟩ hadded hne hnil hcut
      (hend.blanks hnil) ht
    exact ⟨_, file', d', happly, hread⟩
  · have hlast := List.getLast?_eq_some_getLast hsome
    have hcut : u.masked.size = (l.params.getLast hsome).range.stop := by
      rw [hend.stop, CallableLayout.parameterStop, hlast]
      rfl
    obtain ⟨file', d', hread⟩ := exists_signed_behind hfile hd h ⟨hu, hw⟩ hadded hne hlast hcut
      hend.level (hend.line hsome) hs hs' ht
    exact ⟨_, file', d', happly, hread⟩

/-- A constructor that gets the statements it lacks, or lacks none, is read back with them. What
stands before its block is left as it was. -/
theorem exists_stated {x : Source} {block : BlockLayout} (h : ConstructorAt text d k m p x q start l)
    (hm : d.node.members[k]? = some (.constructor m)) {ss : List Statement}
    (hbody : m.body = .block ss) (hblock : l.body = .block block) {style : Style}
    (hstyle : style.BlanksOnly) {added : List Statement} (hadded : ∀ s ∈ added, s.Legible)
    (hend : added ≠ [] → x.masked.size = block.closing + 1)
    (hsettled : added ≠ [] → (block.shift p.masked.size).Settled text)
    (hfree : ∀ field parameter, .assignment field parameter ∈ added → field ∉ Code.continuations)
    (name : String) :
    ∃ t' file' d' block' v z z',
      text.applyEdits ((if added.isEmpty then []
        else [(block.shift p.masked.size).appendStatements text style added]).map
          (Replacement.toEdit name)) = .ok t' ∧
      parse t' = .ok file' ∧ file'.classes.length = file.classes.length ∧
      file'.classes[i]? = some d' ∧
      d'.node = { d.node with
        members := d.node.members.set k (.constructor { m with body := .block (ss ++ added) }) } ∧
      x = v ++ z ∧ v.Even ∧ block.opening < v.masked.size ∧
      ConstructorAt t' d' k { m with body := .block (ss ++ added) } p (v ++ z') q start
        { l with body := .block block' } := by
  cases hempty : added.isEmpty with
  | true =>
    obtain rfl := List.isEmpty_iff.mp hempty
    have hsame : { m with body := .block (ss ++ []) } = m := by rw [List.append_nil, ← hbody]
    have hlayout : { l with body := .block block } = l := by rw [← hblock]
    have hopening : block.opening < x.masked.size := by
      obtain ⟨-, -, hopens, -⟩ := h.parts.found.block hblock
      rw [← Text.length_cells]
      exact (List.getElem?_eq_some_iff.mp hopens).1
    refine ⟨text, file, d, block, x, .empty, .empty, Text.applyEdits_nil text, hfile, rfl, hd,
      ?_, (Source.append_empty x).symm, h.even.2.1, hopening, ?_⟩
    · obtain ⟨hlt, hget⟩ := List.getElem?_eq_some_iff.mp hm
      rw [hsame, ← hget, List.set_getElem_self]
    · rw [hsame, hlayout, Source.append_empty]
      exact h
  | false =>
    have hne : added ≠ [] := by simpa using hempty
    obtain ⟨t', file', d', ss', block', v, z, z', happly, hfile', hlength, hd', hbody', hrest⟩ :=
      exists_appended_statements hfile hd h hblock (hend hne) (hsettled hne) hstyle hadded hfree name
    obtain rfl := Body.block.inj (hbody.symm.trans hbody')
    refine ⟨t', file', d', block', v, z, z', ?_, hfile', hlength, hd', hrest⟩
    rw [if_neg (by simp), List.map_singleton, Text.applyEdits_singleton]
    exact happly

/-- A constructor is read back with the parameters and the statements that a plan adds to it. -/
theorem exists_completed {x : Source} {block : BlockLayout}
    (h : ConstructorAt text d k m p x q start l)
    (hm : d.node.members[k]? = some (.constructor m)) {ss : List Statement}
    (hbody : m.body = .block ss) (hblock : l.body = .block block) {style : Style}
    (hstyle : style.BlanksOnly) {plan : ConstructorPlan} (hplan : plan.Legible)
    (hcontinuable : plan.parameters ≠ [] → (l.shift p.masked.size).Continuable text)
    (hend : plan.assignments ≠ [] → x.masked.size = block.closing + 1)
    (hsettled : plan.assignments ≠ [] → (block.shift p.masked.size).Settled text)
    (hfree : ∀ field parameter, .assignment field parameter ∈ plan.assignments →
      field ∉ Code.continuations) (name : String)
    (hturn : TextEdit.InTurn ((plan.replacements text style (l.shift p.masked.size)
      (block.shift p.masked.size)).map (Replacement.toEdit name))) :
    ∃ t' file' d', text.applyEdits ((plan.replacements text style (l.shift p.masked.size)
        (block.shift p.masked.size)).map (Replacement.toEdit name)) = .ok t' ∧
      parse t' = .ok file' ∧ file'.classes.length = file.classes.length ∧
      file'.classes[i]? = some d' ∧
      d'.node = { d.node with
        members := d.node.members.set k (.constructor (m.extend plan)) } := by
  obtain ⟨t₁, file₁, d₁, block₁, v, z, z₁, happly, hfile₁, hlength₁, hd₁, hnode₁, hx, hv, hopening,
    h₁⟩ := exists_stated hfile hd h hm hbody hblock hstyle hplan.assignments hend hsettled hfree name
  rw [ConstructorPlan.replacements, List.map_append] at hturn ⊢
  rw [Text.applyEdits_append hturn happly]
  cases hempty : plan.parameters.isEmpty with
  | true =>
    refine ⟨t₁, file₁, d₁, Text.applyEdits_nil t₁, hfile₁, hlength₁, hd₁, ?_⟩
    rw [hnode₁, Constructor.extend, hbody, List.isEmpty_iff.mp hempty, List.append_nil]
  | false =>
    have hne : plan.parameters ≠ [] := by simpa using hempty
    obtain ⟨-, hbehind, -⟩ := h.parts.found.block hblock
    obtain ⟨u, w, rfl, hu, hparameters, hle⟩ := h.exists_parameterEnd (hcontinuable hne)
    -- The parameters end before the block, in the part that both texts share.
    obtain ⟨w₁, rfl, -, -⟩ := Source.exists_between hx hu hv (by omega)
    rw [Source.append_assoc] at h₁
    obtain ⟨s, hs, hadds⟩ := h.exists_adds hfile hd hstyle plan.parameters
    obtain ⟨t', file', d', happly', hfile', hlength', hd', hnode'⟩ := exists_signed_at hfile₁ hd₁ h₁
      hu ⟨hparameters.stop, hparameters.level, hparameters.line, hparameters.blanks⟩
      hplan.parameters hne
      (e := Replacement.toEdit name ⟨.emptyAt (l.shift p.masked.size).parameterStop, s⟩) rfl hadds
    refine ⟨t', file', d', ?_, hfile', hlength'.trans hlength₁, hd', ?_⟩
    · rw [if_neg (by simp), List.map_singleton, Text.applyEdits_singleton, hs]
      exact happly'
    · rw [hnode', hnode₁, List.set_set, Constructor.extend, hbody]

end

end SourceFile

end ClassRefactor
