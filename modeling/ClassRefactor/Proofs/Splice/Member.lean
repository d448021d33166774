import ClassRefactor.Proofs.Splice.Append

/-!
# A member added to a class

A new member goes before the closing brace of its class. A class on one line is laid out anew, piece
by piece, which keeps the content of every piece.
-/

namespace ClassRefactor.ParsedClass

variable {text : Text} {style : Style} {c : ParsedClass}

/-- The offsets at which a class may be cut. -/
structure Cuttable (c : ParsedClass) (text : Text) : Prop where
  laid : c.layout.WellLaid text.cells
  header : text.isBoundary c.layout.header.start = true
  members : ∀ m ∈ c.layout.members, text.isBoundary m.range.stop = true

namespace Cuttable

theorem opening (h : c.Cuttable text) :
    text.isBoundary c.layout.opening = true ∧ text.isBoundary (c.layout.opening + 1) = true :=
  Text.isBoundary_of_ascii_cell h.laid.opens (by decide)

theorem closing (h : c.Cuttable text) :
    text.isBoundary c.layout.closing = true ∧ text.isBoundary (c.layout.closing + 1) = true :=
  Text.isBoundary_of_ascii_cell h.laid.closes (by decide)

/-- The braces stand within the class. -/
theorem range_ordered (h : c.Cuttable text) : c.layout.range.start ≤ c.layout.opening ∧
    c.layout.opening < c.layout.closing ∧ c.layout.range.stop = c.layout.closing + 1 := by
  have hheader := h.laid.header_ordered
  rw [h.laid.header_start, h.laid.header_stop] at hheader
  exact ⟨hheader, h.laid.ordered, h.laid.range_stop⟩

/-- Where the last member stops, or the body begins. -/
theorem lastStop (h : c.Cuttable text) :
    text.isBoundary ((c.layout.members.getLast?.map (·.range.stop)).getD (c.layout.opening + 1)) =
        true ∧
      (c.layout.members.getLast?.map (·.range.stop)).getD (c.layout.opening + 1) ≤
        c.layout.closing := by
  cases hlast : c.layout.members.getLast? with
  | none => exact ⟨h.opening.2, h.laid.ordered⟩
  | some m =>
    have hm := List.mem_of_getLast? hlast
    exact ⟨h.members m hm, (h.laid.members.within m.range (List.mem_map_of_mem hm)).2.2⟩

end Cuttable

theorem content_renderAppended (hstyle : style.Blank) (follows : Bool) (m : Member) :
    content (renderAppended style follows [m]) = content (m.render style) := by
  cases follows <;> simp [renderAppended, hstyle.newline]

/-- Members are added where the line of the closing brace begins, if nothing stands before that
brace, and otherwise in the gap before it. -/
theorem appendMembers_range (h : c.Cuttable text) (style : Style) (added : List Member) :
    (c.appendMembers text style added).range =
      if text.startsLine c.layout.closing then .emptyAt (text.lineStart c.layout.closing)
      else text.gapBefore
        ((c.layout.members.getLast?.map (·.range.stop)).getD (c.layout.opening + 1))
        c.layout.closing := by
  unfold appendMembers
  cases hline : text.startsLine c.layout.closing with
  | true =>
    have hlt := Text.lt_lineStart hline h.laid.ordered h.laid.opens (by decide)
    simp [hline, hlt]
  | false => simp [hline]

/-- Members go between the braces of a class, and take nothing but white space away. -/
theorem appendMembers_inserts (h : c.Cuttable text) (style : Style) (added : List Member) :
    (c.appendMembers text style added).Inserts text c.layout.closing ∧
      c.layout.opening < (c.appendMembers text style added).range.start := by
  have hrange := appendMembers_range h style added
  generalize c.appendMembers text style added = r at *
  obtain ⟨range, s⟩ := r
  obtain rfl := hrange
  split
  · rename_i hline
    exact ⟨Replacement.inserts_lineStart h.closing.1 hline s,
      Text.lt_lineStart hline h.laid.ordered h.laid.opens (by decide)⟩
  · obtain ⟨hlast, hle⟩ := h.lastStop
    refine ⟨Text.gapBefore_inserts hlast h.closing.1 hle s, ?_⟩
    have hafter := (h.laid.members.getLast_stop h.laid.ordered).1
    rw [List.getLast?_map, Option.map_map] at hafter
    unfold Text.gapBefore
    split
    · exact hafter
    · exact h.laid.ordered

theorem appendMembers_spec (h : c.Cuttable text) (hstyle : style.Blank) (m : Member) :
    (c.appendMembers text style [m]).Inserts text c.layout.closing ∧
      content (c.appendMembers text style [m]).text = content (m.render style) := by
  refine ⟨(appendMembers_inserts h style [m]).1, ?_⟩
  unfold appendMembers
  simp only
  split
  · exact content_renderAppended hstyle ..
  · have hindent : content (c.indent text) = [] := Text.content_lineIndent ..
    simp [concat, hstyle.newline, hindent]

/-- Member lines hold what stands from `start` up to the end of the last member. -/
theorem content_memberLines (hstyle : style.Blank) {start hi : Nat} {ms : List MemberLayout}
    (hlaid : Range.Laid start hi (ms.map MemberLayout.range))
    (hstart : text.isBoundary start = true)
    (hms : ∀ m ∈ ms, text.isBoundary m.range.stop = true) :
    content (memberLines text style start ms) =
      (text.slice start ((ms.getLast?.map (·.range.stop)).getD start)).strip := by
  induction ms generalizing start with
  | nil => simp [memberLines]
  | cons m ms ih =>
    obtain ⟨h1, h2, -⟩ := hlaid.within m.range (by simp)
    have hrest : Range.Laid m.range.stop hi (ms.map MemberLayout.range) := hlaid.tail
    have hm := hms m List.mem_cons_self
    have hmem : ∀ n ∈ ms, text.isBoundary n.range.stop = true :=
      fun n hn => hms n (List.mem_cons_of_mem _ hn)
    have hlast : text.isBoundary ((ms.getLast?.map (·.range.stop)).getD m.range.stop) = true ∧
        m.range.stop ≤ (ms.getLast?.map (·.range.stop)).getD m.range.stop := by
      cases h : ms.getLast? with
      | none => exact ⟨hm, Nat.le_refl _⟩
      | some n =>
        have hn := List.mem_of_getLast? h
        obtain ⟨h3, h4, -⟩ := hrest.within n.range (List.mem_map_of_mem hn)
        exact ⟨hmem n hn, by simp only [Option.map_some, Option.getD_some]; omega⟩
    have hget : ((m :: ms).getLast?.map (·.range.stop)).getD start =
        (ms.getLast?.map (·.range.stop)).getD m.range.stop := by
      cases h : ms.getLast? <;> simp [List.getLast?_cons, h]
    rw [hget, ← Text.slice_append_slice hstart hm hlast.1 (by omega) hlast.2, Text.strip_append,
      ← ih hrest hm hmem]
    simp [memberLines, hstyle.indent, hstyle.newline]

theorem content_openBrace (hstyle : style.Blank) {indent : String} (h : content indent = []) :
    content (style.openBrace indent) = ['{'] := by
  unfold Style.openBrace
  split
  · simp only [content_append, hstyle.newline, h]
    rfl
  · rfl

/-- What a class on one line is replaced by, from the end of its header on. -/
theorem content_expandOneLine (h : c.Cuttable text) (hstyle : style.Blank) (m : Member) :
    content (c.expandOneLine text style [m]).text =
      '{' :: (text.slice (c.layout.opening + 1) c.layout.closing).strip ++
        content (m.render style) ++ ['}'] := by
  obtain ⟨hlast, hlastle⟩ := h.lastStop
  have hindent : content (c.indent text) = [] := Text.content_lineIndent ..
  have hlines := content_memberLines hstyle h.laid.members h.opening.2 h.members
  have hbodyle : c.layout.opening + 1 ≤
      (c.layout.members.getLast?.map (·.range.stop)).getD (c.layout.opening + 1) := by
    have := (h.laid.members.getLast_stop h.laid.ordered).1
    simpa [List.getLast?_map, Function.comp_def] using this
  simp only [expandOneLine]
  generalize (c.layout.members.getLast?.map (·.range.stop)).getD (c.layout.opening + 1) = last at *
  rw [← Text.slice_append_slice h.opening.2 hlast h.closing.1 hbodyle hlastle]
  have htrailing : ∀ s : Text, content (if s.trim.isEmpty then "" else
      style.indent ++ .ofList s.trim ++ style.newline) = s.strip := by
    intro s
    split
    · rename_i hs
      have := congrArg Text.strip (List.isEmpty_iff.mp hs)
      simpa using this.symm
    · simp [hstyle.indent, hstyle.newline]
  have hbrace : content "\x7d" = ['}'] := by decide
  simp only [content_append, content_openBrace hstyle hindent, hstyle.newline, hlines, htrailing,
    content_renderAppended hstyle, hindent, hbrace]
  simp

/-- A class on one line is replaced from the end of its header on, up to its closing brace. -/
theorem applyTo_expandOneLine (h : c.Cuttable text) (style : Style) (added : List Member)
    (file : String) :
    (c.expandOneLine text style added).range.start ≤ (c.expandOneLine text style added).range.stop ∧
      ((c.expandOneLine text style added).toEdit file).applyTo text =
        .ok (text.before c.layout.header.start ++
          (text.slice c.layout.header.start c.layout.opening).trimEnd ++
          (c.expandOneLine text style added).text.toList ++ text.after (c.layout.closing + 1)) := by
  have hheader : c.layout.header.start ≤ c.layout.opening := by
    rw [← h.laid.header_stop]
    exact h.laid.header_ordered
  have hopen := h.opening.1
  have hend := h.closing.2
  have hordered := h.laid.ordered
  -- The header is cut where its trailing white space begins.
  obtain ⟨w, hw, -⟩ :=
    Text.exists_trimEnd_append (text.slice c.layout.header.start c.layout.opening)
  have hparts : text = text.before c.layout.header.start ++
      (text.slice c.layout.header.start c.layout.opening).trimEnd ++
      (w ++ text.slice c.layout.opening (c.layout.closing + 1)) ++
      text.after (c.layout.closing + 1) := by
    rw [List.append_assoc (text.before _), ← List.append_assoc _ w, ← hw, ← List.append_assoc,
      Text.before_append_slice h.header hopen hheader,
      Text.before_append_slice hopen hend (by omega), Text.before_append_after]
  have hstart : (text.before c.layout.header.start).size = c.layout.header.start := by
    simpa [Text.isBoundary] using h.header
  have hstop : (text.before (c.layout.closing + 1)).size = c.layout.closing + 1 := by
    simpa [Text.isBoundary] using hend
  have hsize : (text.before c.layout.header.start ++
      (text.slice c.layout.header.start c.layout.opening).trimEnd).size +
      (w ++ text.slice c.layout.opening (c.layout.closing + 1)).size = c.layout.closing + 1 := by
    rw [← Text.size_append, List.append_assoc, ← List.append_assoc _ w, ← hw, ← List.append_assoc,
      Text.before_append_slice h.header hopen hheader,
      Text.before_append_slice hopen hend (by omega), hstop]
  have hfrom : (c.expandOneLine text style added).range.start =
      (text.before c.layout.header.start ++
        (text.slice c.layout.header.start c.layout.opening).trimEnd).size := by
    simp [hstart, expandOneLine]
  have happly := TextEdit.applyTo_append ((c.expandOneLine text style added).toEdit file)
    (b := w ++ text.slice c.layout.opening (c.layout.closing + 1))
    (c := text.after (c.layout.closing + 1)) hfrom (by rw [hsize]; rfl)
  rw [← hparts] at happly
  refine ⟨?_, happly⟩
  have hto : (c.expandOneLine text style added).range.stop = c.layout.closing + 1 := rfl
  omega

/-- A class on one line, laid out anew, has the content it had, with the new member before its
closing brace. -/
theorem expandOneLine_spec (h : c.Cuttable text) (hstyle : style.Blank) (m : Member)
    (file : String) :
    (c.expandOneLine text style [m]).range.start ≤ (c.expandOneLine text style [m]).range.stop ∧
      ∃ t', ((c.expandOneLine text style [m]).toEdit file).applyTo text = .ok t' ∧
        t'.strip = (text.before c.layout.closing).strip ++ content (m.render style) ++
          (text.after c.layout.closing).strip := by
  have hheader : c.layout.header.start ≤ c.layout.opening := by
    rw [← h.laid.header_stop]
    exact h.laid.header_ordered
  obtain ⟨hopen, hbody⟩ := h.opening
  obtain ⟨hclose, hend⟩ := h.closing
  -- The text around the braces, in terms of the header and the body.
  have hbefore : text.before c.layout.closing = text.before c.layout.header.start ++
      text.slice c.layout.header.start c.layout.opening ++ ['{'] ++
      text.slice (c.layout.opening + 1) c.layout.closing := by
    rw [← Text.slice_ascii_cell h.laid.opens (by decide),
      Text.before_append_slice h.header hopen hheader,
      Text.before_append_slice hopen hbody (Nat.le_succ _),
      Text.before_append_slice hbody hclose h.laid.ordered]
  have hafter : text.after c.layout.closing = ['}'] ++ text.after (c.layout.closing + 1) := by
    rw [← Text.slice_ascii_cell h.laid.closes (by decide),
      Text.slice_append_after hclose hend (Nat.le_succ _)]
  obtain ⟨hrange, happly⟩ := applyTo_expandOneLine h style [m] file
  refine ⟨hrange, _, happly, ?_⟩
  have hcontent : Text.strip (c.expandOneLine text style [m]).text.toList =
      content (c.expandOneLine text style [m]).text := rfl
  have hopenStrip : Text.strip ['{'] = ['{'] := by decide
  have hcloseStrip : Text.strip ['}'] = ['}'] := by decide
  rw [hbefore, hafter]
  simp only [Text.strip_append, Text.strip_trimEnd, hcontent, content_expandOneLine h hstyle,
    hopenStrip, hcloseStrip]
  simp

end ClassRefactor.ParsedClass
