import ClassRefactor.Proofs.Reflow.Class

/-!
# A class on one line is given a constructor

The constructor goes before the closing brace of the class, with line feeds around it, and then the
pieces of the body and the opening brace are moved to lines of their own. That is what the edit of
such a class makes of its source, so the class is read with the constructor behind its members.
-/

namespace ClassRefactor

namespace Text

theorem not_white_getLast?_trimEnd (t : Text) : ∀ c ∈ t.trimEnd.getLast?, isWhite c = false := by
  intro c hc
  rw [trimEnd, List.getLast?_reverse] at hc
  have hhead := List.head?_dropWhile_not isWhite t.reverse
  rw [Option.mem_def.mp hc] at hhead
  simpa using hhead

theorem mem_of_mem_trimEnd {t : Text} {c : Char} (h : c ∈ t.trimEnd) : c ∈ t :=
  List.mem_reverse.mp ((List.dropWhile_suffix isWhite).subset (List.mem_reverse.mp h))

end Text

/-- White space behind the comments does not matter. -/
theorem trailingLine_trimEnd (style : Style) (t : Text) :
    trailingLine style t.trimEnd = trailingLine style t := by
  obtain ⟨w, hw, hwhite⟩ := Text.exists_trimEnd_append t
  have htrim : t.trim = t.trimEnd.trim := by
    conv_lhs => rw [hw]
    exact Text.trim_append_white _ (Text.strip_eq_nil_iff.mp hwhite)
  rw [trailingLine, trailingLine, htrim]

namespace ParsedClass

/-- Where the last member of a class stops, or its body begins. -/
def lastStop (c : ParsedClass) : Nat :=
  (c.layout.members.getLast?.map (·.range.stop)).getD (c.layout.opening + 1)

theorem lastStop_mem_breaks (c : ParsedClass) : c.lastStop ∈ c.breaks := by
  rw [lastStop, breaks]
  cases h : c.layout.members.getLast? with
  | none => exact List.mem_cons_self
  | some m => exact List.mem_cons_of_mem _ (List.mem_map_of_mem (List.mem_of_getLast? h))

variable {text : Text} {c : ParsedClass}

theorem not_mem_slice_of_isOneLine (hcut : c.Cuttable text) (hline : c.isOneLine text = true)
    {i j : Nat} (hi : text.isBoundary i = true) (hj : text.isBoundary j = true)
    (hfrom : c.layout.opening ≤ i) (hij : i ≤ j) (hto : j ≤ c.layout.closing) :
    '\n' ∉ text.slice i j := by
  intro hmem
  have hopening := hcut.opening.1
  have hclosing := hcut.closing.1
  simp only [isOneLine, Bool.not_eq_true', List.contains_eq_mem, decide_eq_false_iff_not] at hline
  refine hline ?_
  rw [← Text.slice_append_slice hopening hi hclosing hfrom (Nat.le_trans hij hto),
    ← Text.slice_append_slice hi hj hclosing hij hto]
  exact List.mem_append_right _ (List.mem_append_left _ hmem)

theorem Cuttable.laid_of_lastStop_le (hcut : c.Cuttable text) {hi : Nat} (hle : c.lastStop ≤ hi) :
    Range.Laid (c.layout.opening + 1) hi (c.layout.members.map MemberLayout.range) := by
  refine ⟨fun r hr => ?_, hcut.laid.members.ordered⟩
  obtain ⟨hfrom, hwide, -⟩ := hcut.laid.members.within r hr
  have hto := hcut.laid.members.stop_le_getLast hr
  rw [List.getLast?_map, Option.map_map] at hto
  exact ⟨hfrom, hwide, hto.trans hle⟩

/-- The white space before the closing brace of a class on one line. -/
theorem exists_closingGap_of_isOneLine (hcut : c.Cuttable text)
    (hlayout : c.layout ∈ Code.classLayouts text.mask.cells) (hsettled : c.layout.Settled text)
    (hline : c.isOneLine text = true) (hbreak : Break text c.layout.opening c.lastStop) :
    ∃ b : Text, ClosingGap text (text.before c.lastStop ++
        (text.slice c.lastStop c.layout.closing).trimEnd) b (text.after c.layout.closing)
      (Code.afterMemberBlock text.mask.cells) c.layout.opening c.layout.closing := by
  obtain ⟨hlaid, -⟩ := Code.classLayouts_spec hlayout
  have hle := hcut.lastStop.2
  have hclosing := hcut.closing.1
  obtain ⟨b, hb, hwhite⟩ := Text.exists_trimEnd_append (text.slice c.lastStop c.layout.closing)
  have hbefore : text.before c.lastStop ++ (text.slice c.lastStop c.layout.closing).trimEnd ++ b =
      text.before c.layout.closing := by
    rw [List.append_assoc, ← hb, Text.before_append_slice hbreak.boundary hclosing hle]
  have hsize : ∀ n, text.isBoundary n = true → (text.before n).size = n := by
    simp [Text.isBoundary]
  refine ⟨b, ⟨?_, hlaid.opens, hlaid.closes, ?_, ?_, Text.strip_eq_nil_iff.mp hwhite,
    .inl fun hmem => ?_, hsettled⟩⟩
  · rw [hbefore, Text.before_append_after]
  · have := hbreak.after
    rw [Text.size_append, hsize _ hbreak.boundary]
    omega
  · rw [hbefore, hsize _ hclosing]
  · have hnot := not_mem_slice_of_isOneLine hcut hline hbreak.boundary hclosing
      (Nat.le_of_lt hbreak.after) hle (Nat.le_refl _)
    rw [hb] at hnot
    exact hnot (List.mem_append_right _ hmem)

/-- What stands before that white space ends with something else. -/
theorem not_white_before_gap (hbreak : Break text c.layout.opening c.lastStop) :
    ∀ d ∈ (text.before c.lastStop ++ (text.slice c.lastStop c.layout.closing).trimEnd).getLast?,
      isWhite d = false := by
  intro d hd
  rw [List.getLast?_append, Option.mem_def, Option.or_eq_some_iff] at hd
  rcases hd with hd | ⟨-, hd⟩
  · exact Text.not_white_getLast?_trimEnd _ d hd
  · obtain ⟨e, he, hend⟩ := hbreak.ends
    have hcell := Text.getElem?_cells_of_mask he
      (by rintro rfl; exact absurd hend (by decide)) (by rintro rfl; exact absurd hend (by decide))
    have hsize : (text.before c.lastStop).size = c.lastStop := by
      simpa [Text.isBoundary] using hbreak.boundary
    have hafter := hbreak.after
    rw [← Text.before_append_after text c.lastStop, Text.cells_append,
      List.getElem?_append_left (by rw [Text.length_cells]; omega)] at hcell
    have hlast : (Text.cells (text.before c.lastStop)).getLast? = some e := by
      rw [List.getLast?_eq_getElem?, Text.length_cells, hsize, hcell]
    rw [Text.getLast?_cells, hd] at hlast
    rw [Option.some.inj hlast]
    exact Code.not_white_of_isEnd hend

/-- What a class on one line is replaced by. -/
theorem text_expandOneLine (c : ParsedClass) (text : Text) {style : Style}
    (hstyle : style.BlanksOnly) (hbrace : style.braceOnNewLine = true) {m : Constructor}
    (hm : m.initializer = none) :
    ∃ x : Text, (∀ e ∈ x, isLayoutBlank e = true) ∧
      (c.expandOneLine text style [.constructor m]).text.toList =
        style.newline.toList ++ (c.indent text).toList ++ '{' :: (style.newline.toList ++
          ((memberLines text style (c.layout.opening + 1) c.layout.members).toList ++
            trailingLine style (text.slice c.lastStop c.layout.closing)) ++
          (x ++ m.text style ++ (style.newline.toList ++ (c.indent text).toList)) ++ ['}']) := by
  have hbraces : "\x7b".toList = ['{'] ∧ "\x7d".toList = ['}'] := by decide
  have htrailing : ∀ t : Text, trailingLine style t = String.toList
      (if t.trim.isEmpty then "" else style.indent ++ .ofList t.trim ++ style.newline) := by
    intro t
    rw [trailingLine]
    split <;> simp
  refine ⟨String.toList (if decide (c.layout.opening + 1 < c.lastStop) ||
    !(text.slice c.lastStop c.layout.closing).trim.isEmpty then style.newline else "") ++
      style.indent.toList, ?_, ?_⟩
  · intro e he
    rcases List.mem_append.mp he with he | he
    · split at he
      · exact hstyle.newline e he
      · cases he
    · exact hstyle.indent e he
  · have hlast : (c.layout.members.getLast?.map (·.range.stop)).getD (c.layout.opening + 1) =
        c.lastStop := rfl
    simp [expandOneLine, hlast, Style.openBrace, hbrace, renderAppended, Member.render,
      htrailing, m.render_eq hm style, hbraces]

end ParsedClass

/-- With a constructor in the gap before its closing brace, a class is filled. -/
theorem SourceFile.exists_filled_class {text : Text} {file : SourceFile}
    (hfile : parse text = .ok file) {i : Nat} {c : ParsedClass} (hc : file.classes[i]? = some c) {a b d : Text}
    (hgap : ClosingGap text a b d (Code.afterMemberBlock text.mask.cells) c.layout.opening
      c.layout.closing) {x y : Text} (hx : ∀ e ∈ x, isLayoutBlank e = true)
    (hy : ∀ e ∈ y, isLayoutBlank e = true) {style : Style} (hstyle : style.BlanksOnly)
    {m : Constructor} (hm : m.Legible) (hname : m.name = c.node.name)
    (hpublic : m.modifiers = ["public"]) :
    ∃ p q : Source, p.text = a ∧ q.text = d ∧ Filled text file.classes.length i c.layout.opening
      { c.node with members := c.node.members ++ [.constructor m] } p (.plain b) q
        (x ++ m.text style ++ y) := by
  obtain ⟨p, q, file', c', rfl, hp, hq, hsource, hsource', hfile', hlength, hc', hopening, hclosing,
    hnode⟩ := exists_grown hfile hc hgap hx hy hstyle hm hname
  have hqtext : q.text = d := by
    have htext : text = p.text ++ b ++ q.text := congrArg Source.text hsource
    exact (List.append_cancel_left (hgap.eq.symm.trans htext)).symm
  subst hqtext
  -- The constructor begins with its modifier.
  obtain ⟨k, hk⟩ : ∃ k, m.text style = 'p' :: k := by
    rw [Constructor.text, hpublic]
    exact ⟨_, rfl⟩
  refine ⟨p, q, rfl, rfl, hsource, ⟨hp, hq⟩, ?_, ?_, hsource', file', c', hfile', hlength, hc',
    hopening, hclosing, hnode⟩
  · rw [hk]
    simp only [Text.size_append, Text.size_cons]
    have := Char.utf8Size_pos 'p'
    omega
  · have hcells : (Source.plain (x ++ m.text style ++ y) ++ q).masked.cells =
        Text.cells x ++ 'p' :: (Text.cells k ++ Text.cells y ++ q.masked.cells) := by
      rw [Source.masked_append, Text.cells_append, hk]
      simp [Source.plain, Text.cells_append]
      rfl
    rw [hcells]
    have hhead : Code.Lined ('p' :: (Text.cells k ++ Text.cells y ++ q.masked.cells)) := by
      intro e he
      rw [List.dropWhile_cons_of_neg (by decide)] at he
      rw [← Option.some.inj he]
      decide
    exact (Code.lined_blanks fun e he => hx e (Text.mem_cells.mp he)).append hhead

namespace ParsedClass

variable {text : Text} {c : ParsedClass}

/-- The white space before the opening brace of a class, in a source that begins in the same way up to
that brace. -/
theorem exists_headerGap (hcut : c.Cuttable text)
    (hlayout : c.layout ∈ Code.classLayouts text.mask.cells) (hreflow : c.Reflowable text)
    {u w : Source} (hsource : Source.ofText text = u ++ w) (hu : u.Even)
    (hfront : u.text = text.before (c.layout.opening + 1)) {text' : Text} {w' : Source}
    (hsource' : Source.ofText text' = u ++ w') (hw' : w'.Even) :
    ∃ h g o : Source, Source.HeaderGap text' h g (o ++ w') ∧ h.text =
        text.before c.layout.header.start ++
          (text.slice c.layout.header.start c.layout.opening).trimEnd ∧ o.text = ['{'] ∧
      (h ++ g).masked.size = c.layout.opening := by
  obtain ⟨hlaid, -⟩ := Code.classLayouts_spec hlayout
  have hheader : c.layout.header.start ≤ c.layout.opening := by
    rw [← hcut.laid.header_stop]
    exact hcut.laid.header_ordered
  have hopening := hcut.opening
  obtain ⟨b, hb, hwhite⟩ :=
    Text.exists_trimEnd_append (text.slice c.layout.header.start c.layout.opening)
  have hbefore : text.before c.layout.header.start ++
      (text.slice c.layout.header.start c.layout.opening).trimEnd ++ b =
        text.before c.layout.opening := by
    rw [List.append_assoc, ← hb, Text.before_append_slice hcut.header hopening.1 hheader]
  rw [← Text.before_append_slice hopening.1 hopening.2 (Nat.le_succ _),
    Text.slice_ascii_cell hcut.laid.opens (by decide), ← hbefore] at hfront
  obtain ⟨f, o, rfl, hf, ho, hftext, hotext⟩ := Source.exists_cut_text hsource hu hfront
  rw [Source.append_assoc] at hsource
  obtain ⟨h, g, rfl, hh, hg, hhtext, hgtext⟩ := Source.exists_cut_text hsource hf hftext
  have hsize : ∀ n, text.isBoundary n = true → (text.before n).size = n := by
    simp [Text.isBoundary]
  have hopens : (h ++ g).masked.size = c.layout.opening := by
    rw [← hf, hftext, hbefore, hsize _ hopening.1]
  have hstart : h.masked.size = c.layout.header.start +
      (text.slice c.layout.header.start c.layout.opening).trimEnd.size := by
    rw [← hh, hhtext, Text.size_append, hsize _ hcut.header]
  have hmask : text.mask.cells = h.masked.cells ++ g.masked.cells ++ (o ++ w).masked.cells := by
    rw [← Source.cells_masked]
    exact congrArg (fun s => Text.cells (Source.masked s)) hsource
  refine ⟨h, g, o, ⟨?_, ⟨hh, hg, ho.append hw'⟩, ?_, ?_, ?_⟩, hhtext, hotext, hopens⟩
  · rw [hsource', Source.append_assoc (h ++ g)]
  · rw [hgtext]
    exact Text.strip_eq_nil_iff.mp hwhite
  · have hshown :=
      (Code.shows_append h.masked.cells g.masked.cells (o ++ w).masked.cells).window_self
    rw [← hmask, ← List.length_append, ← Text.cells_append, ← Source.masked_append,
      Text.length_cells, Text.length_cells, hopens, hstart] at hshown
    rw [← hshown]
    exact hreflow.header
  · have hcell := hlaid.opens
    have hlength : (h.masked.cells ++ g.masked.cells).length = c.layout.opening := by
      rw [← Text.cells_append, ← Source.masked_append, Text.length_cells, hopens]
    rw [hmask, List.getElem?_append_right (Nat.le_of_eq hlength), hlength, Nat.sub_self,
      ← List.head?_eq_getElem?, Source.masked_append, Text.cells_append, List.head?_append] at hcell
    rw [Source.masked_append, Text.cells_append, List.head?_append]
    cases hmark : o.masked.cells with
    | cons d rest =>
      rw [hmark] at hcell
      exact hcell
    | nil =>
      have hzero : o.masked.size = 0 := by
        rw [← Text.length_cells, hmark]
        rfl
      rw [← ho, hotext] at hzero
      exact absurd hzero (by decide)

/-- The pieces of a class on one line are moved to lines of their own, as is its opening brace. -/
theorem exists_reflowed {style : Style} {p b q : Source} {t : Text} {number i : Nat}
    {node : ClassNode} (hcut : c.Cuttable text)
    (hlayout : c.layout ∈ Code.classLayouts text.mask.cells) (hsettled : c.layout.Settled text)
    (hreflow : c.Reflowable text) (hline : c.isOneLine text = true)
    (hfilled : SourceFile.Filled text number i c.layout.opening node p b q t)
    (hp : p.text = text.before c.lastStop ++ (text.slice c.lastStop c.layout.closing).trimEnd)
    (hstyle : style.BlanksOnly) (hnewline : '\n' ∈ style.newline.toList) :
    ∃ lines : Text, lines ++ style.newline.toList = style.newline.toList ++
        ((memberLines text style (c.layout.opening + 1) c.layout.members).toList ++
          trailingLine style (text.slice c.lastStop c.layout.closing)) ∧
      ∃ opening closing, SourceFile.Declares (text.before c.layout.header.start ++
        (text.slice c.layout.header.start c.layout.opening).trimEnd ++
          (style.newline.toList ++ (c.indent text).toList) ++ ('{' :: (lines ++ (t ++ q.text))))
            number i opening closing node := by
  have hbreaks : ∀ place ∈ c.breaks, Break text c.layout.opening place := fun place hplace =>
    break_of_mem_breaks hcut hlayout hsettled hreflow hplace
  have hbreak := hbreaks _ c.lastStop_mem_breaks
  have hlast := hp ▸ not_white_before_gap hbreak
  have hopening := hcut.opening.2
  have hclosing := hcut.closing.1
  have hle := hcut.lastStop.2
  -- The text is cut behind the opening brace.
  have hcutp : p.text = text.before (c.layout.opening + 1) ++
      (text.slice (c.layout.opening + 1) c.lastStop ++
        (text.slice c.lastStop c.layout.closing).trimEnd) := by
    rw [hp, ← List.append_assoc,
      Text.before_append_slice hopening hbreak.boundary hbreak.after]
  have hsource := hfilled.eq
  rw [Source.append_assoc] at hsource
  obtain ⟨u, v, rfl, hu, hv, hutext, hvtext⟩ :=
    Source.exists_cut_text hsource hfilled.even.1 hcutp
  have hustart : u.masked.size = c.layout.opening + 1 := by
    rw [← hu, hutext]
    simpa [Text.isBoundary] using hopening
  have hbefore : (text.before c.lastStop).size = c.lastStop := by
    simpa [Text.isBoundary] using hbreak.boundary
  have hsize : (u ++ v).masked.size =
      c.lastStop + (text.slice c.lastStop c.layout.closing).trimEnd.size := by
    rw [← hfilled.even.1, hp, Text.size_append, hbefore]
  have hvline : '\n' ∉ v.text := by
    rw [hvtext, List.mem_append, not_or]
    refine ⟨not_mem_slice_of_isOneLine hcut hline hopening hbreak.boundary (Nat.le_succ _)
      hbreak.after hle, fun hmem => ?_⟩
    exact not_mem_slice_of_isOneLine hcut hline hbreak.boundary hclosing
      (Nat.le_of_lt hbreak.after) hle (Nat.le_refl _) (Text.mem_of_mem_trimEnd hmem)
  have hlaid := hcut.laid_of_lastStop_le (show c.lastStop ≤ (u ++ v).masked.size by omega)
  obtain ⟨z, hz⟩ := hfilled.exists_relined hstyle hlast rfl hu hv hustart hlaid hbreaks hvline
  have hslice : text.slice c.lastStop (u ++ v).masked.size =
      (text.slice c.lastStop c.layout.closing).trimEnd := by
    have htext : text = (u ++ v).text ++ (b ++ q).text := congrArg Source.text hsource
    have := Text.slice_append (text.before c.lastStop)
      (text.slice c.lastStop c.layout.closing).trimEnd (b ++ q).text
    rwa [← hp, ← htext, hbefore, ← hsize] at this
  obtain ⟨h, g, o, hgap, hh, ho, hopens⟩ := exists_headerGap hcut hlayout hreflow
    (hsource.trans (Source.append_assoc ..)) hu hutext (hz.source.trans (Source.append_assoc ..))
    (hz.even.append ((Source.even_plain t).append hfilled.even.2))
  have hdeclares := hz.declares
  rw [← hopens] at hdeclares
  have hblanks : ∀ e ∈ style.newline.toList ++ (c.indent text).toList, isLayoutBlank e = true :=
    fun e he => (List.mem_append.mp he).elim (hstyle.newline e) (c.blanks_indent text e)
  obtain ⟨opening, closing, hdeclares'⟩ :=
    hdeclares.reheaded hgap hblanks (List.mem_append_left _ hnewline)
  refine ⟨z.text, ?_, opening, closing, ?_⟩
  · rw [← trailingLine_trimEnd, ← hslice]
    exact hz.text
  · rw [hh] at hdeclares'
    simpa [ho, Source.plain] using hdeclares'

/-- New members of a class on one line have their braces on lines of their own. -/
theorem style_of_isOneLine (h : c.isOneLine text = true) :
    (c.style text).braceOnNewLine = true ∧ '\n' ∈ (c.style text).newline.toList := by
  have hnewline : ∀ s : Text, '\n' ∈
      (Style.infer s (c.indent text) true).newline.toList := by
    intro s
    simp only [Style.infer]
    split <;> decide
  simp only [style, h, if_true]
  split
  · exact ⟨rfl, show '\n' ∈ "\r\n".toList by decide⟩
  · exact ⟨rfl, hnewline _⟩

/-- A class on one line is laid out anew with a constructor, and is read as the class with it. -/
theorem exists_expanded {file : SourceFile} (hfile : SourceFile.parse text = .ok file) {i : Nat}
    (hc : file.classes[i]? = some c) (hcut : c.Cuttable text) (hsettled : c.layout.Settled text)
    (hreflow : c.Reflowable text) (hline : c.isOneLine text = true) {m : Constructor}
    (hm : m.Legible) (hname : m.name = c.node.name) (hpublic : m.modifiers = ["public"])
    (name : String) :
    ∃ t' file' c',
      ((c.expandOneLine text (c.style text) [.constructor m]).toEdit name).applyTo text = .ok t' ∧
      SourceFile.parse t' = .ok file' ∧ file'.classes.length = file.classes.length ∧
      file'.classes[i]? = some c' ∧
      c'.node = { c.node with members := c.node.members ++ [.constructor m] } := by
  obtain ⟨hlayout, -⟩ := SourceFile.layout_of_mem_classes hfile (List.mem_of_getElem? hc)
  have hstyle := c.blanksOnly_style text
  obtain ⟨hbrace, hnewline⟩ := style_of_isOneLine hline
  obtain ⟨b, hgap⟩ := exists_closingGap_of_isOneLine hcut hlayout hsettled hline
    (break_of_mem_breaks hcut hlayout hsettled hreflow c.lastStop_mem_breaks)
  obtain ⟨x, hx, hexpand⟩ := c.text_expandOneLine text hstyle hbrace hm.initializer
  obtain ⟨p, q, hp, hq, hfilled⟩ := SourceFile.exists_filled_class hfile hc hgap
    (x := (c.style text).newline.toList ++ x)
    (y := (c.style text).newline.toList ++ (c.indent text).toList)
    (fun e he => (List.mem_append.mp he).elim (hstyle.newline e) (hx e))
    (fun e he => (List.mem_append.mp he).elim (hstyle.newline e) (c.blanks_indent text e))
    hstyle hm hname hpublic
  obtain ⟨lines, hlines, -, -, file', c', hfile', hlength, hc', -, -, hnode⟩ :=
    exists_reflowed hcut hlayout hsettled hreflow hline hfilled hp hstyle hnewline
  refine ⟨_, file', c', (applyTo_expandOneLine hcut _ _ name).2, ?_, hlength, hc', hnode⟩
  have hafter : text.after c.layout.closing = '}' :: text.after (c.layout.closing + 1) := by
    rw [← List.singleton_append, ← Text.slice_ascii_cell hcut.laid.closes (by decide),
      Text.slice_append_after hcut.closing.1 hcut.closing.2 (Nat.le_succ _)]
  rw [← hfile', hexpand, ← hlines, hq, hafter]
  simp

end ParsedClass

end ClassRefactor
