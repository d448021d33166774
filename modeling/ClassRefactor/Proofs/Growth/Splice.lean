import ClassRefactor.Proofs.Edit.Apart
import ClassRefactor.Proofs.Growth.Member
import ClassRefactor.Proofs.Splice.Member

/-!
# Where a constructor is put

A class that stands on several lines gets its constructor in the white space before its closing
brace. What is written around the constructor there are blanks.
-/

namespace ClassRefactor

theorem Text.blanks_lineIndent (t : Text) (offset : Nat) :
    ∀ c ∈ (t.lineIndent offset).toList, isLayoutBlank c = true := by
  intro c hc
  rw [lineIndent, String.toList_ofList] at hc
  have := List.all_eq_true.mp List.all_takeWhile c hc
  simp only [Bool.or_eq_true, beq_iff_eq] at this
  rcases this with rfl | rfl <;> decide

theorem Style.BlanksOnly.infer (t : Text) {classIndent : String}
    (h : ∀ c ∈ classIndent.toList, isLayoutBlank c = true) (braceOnNewLine : Bool) :
    (Style.infer t classIndent braceOnNewLine).BlanksOnly := by
  have hunit : ∀ c ∈ (Style.infer t classIndent braceOnNewLine).indentUnit.toList,
      isLayoutBlank c = true := by
    simp only [Style.infer]
    split
    · decide
    · intro c hc
      rw [String.toList_ofList] at hc
      rw [List.eq_of_mem_replicate hc]
      decide
  refine ⟨fun c hc => ?_, hunit, ?_⟩
  · have hindent : (Style.infer t classIndent braceOnNewLine).indent =
        classIndent ++ (Style.infer t classIndent braceOnNewLine).indentUnit := rfl
    rw [hindent, String.toList_append, List.mem_append] at hc
    exact hc.elim (h c) (hunit c)
  · simp only [Style.infer]
    split <;> decide

namespace ClosingGap

variable {text : Text} {rule : AfterBlock.Rule} {opening closing : Nat}
  (hopens : text.mask.cells[opening]? = some '{') (hcloses : text.mask.cells[closing]? = some '}')
include hopens hcloses

/-- On a line of its own, a closing brace has blanks before it. -/
theorem exists_of_startsLine (hlt : opening < closing)
    (hsettled : Code.Settled text.mask.cells rule (opening + 1) closing)
    (hline : text.startsLine closing = true) :
    ∃ a b c, ClosingGap text a b c rule opening closing ∧ a.size = text.lineStart closing ∧
      opening < text.lineStart closing ∧ ∀ e ∈ b, isLayoutBlank e = true := by
  have hopen := Text.getElem?_cells_of_mask hopens (by decide) (by decide)
  have hclose := Text.getElem?_cells_of_mask hcloses (by decide) (by decide)
  have hboundary := (Text.isBoundary_of_ascii_cell hclose (by decide)).1
  have hclosing := Text.le_size_of_isBoundary hboundary
  have hbefore := Text.lt_lineStart hline hlt hopen (by decide)
  obtain ⟨hle, -, -⟩ := Text.lineStart_spec hclosing
  obtain ⟨a, b, c, htext, ha, hb⟩ :=
    Text.split_at_boundaries (Text.isBoundary_lineStart hclosing) hboundary hle
  have hblanks : ∀ e ∈ b, isLayoutBlank e = true ∧ e ≠ '\n' := by
    intro e he
    obtain ⟨i, hi⟩ := List.mem_iff_getElem?.mp (Text.mem_cells.mpr he)
    have hib : i < b.size := by simpa using (List.getElem?_eq_some_iff.mp hi).1
    have hcell : (Text.cells text)[a.size + i]? = some e := by
      rw [htext, List.append_assoc, Text.cells_append, Text.cells_append,
        List.getElem?_append_right (by simp), Text.length_cells, Nat.add_sub_cancel_left,
        List.getElem?_append_left (by simpa using hib), hi]
    rcases Text.blank_of_startsLine hline (by omega) (by omega) hcell with rfl | rfl | rfl <;>
      decide
  exact ⟨a, b, c, ⟨htext, hopens, hcloses, by omega, by simp [hb],
    fun e he => isWhite_of_isLayoutBlank (hblanks e he).1,
    .inl fun hline => (hblanks _ hline).2 rfl, hsettled⟩, ha, hbefore,
    fun e he => (hblanks e he).1⟩

/-- Behind the end of a segment on its line, what stands before a closing brace is white space or is
left alone. -/
theorem exists_of_gapBefore {last : Nat}
    (hsettled : Code.Settled text.mask.cells rule (opening + 1) closing)
    (hlast : text.isBoundary last = true) (hle : last ≤ closing) (hafter : opening < last)
    (hend : ∃ d, text.mask.cells[last - 1]? = some d ∧ Code.isEnd d = true) :
    ∃ a b c, ClosingGap text a b c rule opening closing ∧
      text.gapBefore last closing = ⟨a.size, a.size + b.size⟩ := by
  have hclose := Text.getElem?_cells_of_mask hcloses (by decide) (by decide)
  have hboundary := (Text.isBoundary_of_ascii_cell hclose (by decide)).1
  obtain ⟨a, b, c, htext, ha, hb⟩ := Text.split_at_boundaries hlast hboundary hle
  cases hwhite : (text.slice last closing).all isWhite with
  | true =>
    refine ⟨a, b, c, ⟨htext, hopens, hcloses, by omega, by simp [hb], ?_, .inr (by rwa [ha]),
      hsettled⟩, ?_⟩
    · have hslice := Text.slice_append a b c
      rw [← htext, hb, ha] at hslice
      exact fun e he => List.all_eq_true.mp hwhite e (hslice ▸ he)
    · rw [Text.gapBefore, if_pos hwhite, hb, ha]
  | false =>
    refine ⟨a ++ b, [], c, ⟨by rw [List.append_nil, htext], hopens, hcloses, ?_, by simp [hb],
      by simp, .inl (by simp), hsettled⟩, ?_⟩
    · rw [Text.size_append, hb]
      omega
    · rw [Text.gapBefore, if_neg (by simp [hwhite]), Text.size_append, hb]
      rfl

end ClosingGap

namespace BlockLayout

/-- The indentation of new statements consists of blanks. -/
theorem blanks_statementIndent (b : BlockLayout) (text : Text) {style : Style}
    (hstyle : style.BlanksOnly) :
    ∀ c ∈ (b.statementIndent text style).toList, isLayoutBlank c = true := by
  intro c hc
  unfold statementIndent at hc
  split at hc
  · exact Text.blanks_lineIndent _ _ c hc
  · rw [String.toList_append, List.mem_append] at hc
    exact hc.elim (Text.blanks_lineIndent text b.opening c) (hstyle.indentUnit c)

/-- No statement of a block is open at its closing brace. -/
def Settled (b : BlockLayout) (text : Text) : Prop :=
  Code.Settled text.mask.cells (Code.afterStatementBlock text.mask.cells) (b.opening + 1) b.closing

instance (b : BlockLayout) (text : Text) : Decidable (b.Settled text) :=
  inferInstanceAs (Decidable (Code.Settled ..))

variable {text : Text} {b : BlockLayout}
  (hopens : text.mask.cells[b.opening]? = some '{')
  (hcloses : text.mask.cells[b.closing]? = some '}') (hlt : b.opening < b.closing)
  (heq : b = Code.blockLayout text.mask.cells b.opening b.closing) (hsettled : b.Settled text)

include heq hsettled in
/-- Where no statement is open at the end of a block, each of its statements ends with its
terminator. -/
theorem end_of_settled {r : Range} (hr : r ∈ b.statements) :
    ∃ d, text.mask.cells[r.stop - 1]? = some d ∧ Code.isEnd d = true := by
  rw [heq, Code.blockLayout, Code.statementRanges] at hr
  obtain ⟨s, hs, rfl⟩ := List.mem_map.mp hr
  obtain ⟨hlt, hend⟩ := Code.Settled.end_of_mem hsettled hs
  have hsolid : ∃ d, text.mask.cells[s.stop - 1]? = some d ∧ Code.isEnd d = true := by
    rcases hend with h | h
    · exact ⟨_, h, by decide⟩
    · exact ⟨_, h, by decide⟩
  obtain ⟨d, hd, hdend⟩ := hsolid
  have hinside := (List.getElem?_eq_some_iff.mp hd).1
  obtain ⟨-, hblanks, -⟩ := Code.runBack_spec isLayoutBlank (Nat.le_of_lt hlt)
    (show s.stop ≤ text.mask.cells.length by omega)
  -- A terminator is no blank, so nothing is trimmed.
  have htrim : Code.trimBlanks text.mask.cells s.start s.stop = s.stop := by
    refine Nat.le_antisymm (Nat.sub_le ..) (Nat.le_of_not_lt fun hcut => ?_)
    obtain ⟨e, he, hblank⟩ := hblanks (s.stop - 1) (Nat.le_sub_one_of_lt hcut) (by omega)
    rw [hd] at he
    rw [← Option.some.inj he, (Code.not_of_isEnd hdend).1] at hblank
    cases hblank
  rw [htrim]
  exact ⟨d, hd, hdend⟩

include hopens hcloses hlt heq hsettled in
/-- Statements that are added to a block go into white space before its closing brace, with blanks
around them. -/
theorem exists_closingGap {style : Style} (hstyle : style.BlanksOnly) (added : List Statement)
    (name : String) :
    ∃ a e t d : Text, ClosingGap text a e d (Code.afterStatementBlock text.mask.cells) b.opening
        b.closing ∧ Segment.Spaced (added.map fun s => s.render.toList) t ∧
      ((b.appendStatements text style added).toEdit name).applyTo text = .ok (a ++ t ++ d) := by
  have hindent := b.blanks_statementIndent text hstyle
  cases hline : text.startsLine b.closing with
  | true =>
    obtain ⟨a, e, d, hgap, ha, -, hblanks⟩ :=
      ClosingGap.exists_of_startsLine hopens hcloses hlt hsettled hline
    have happend : b.appendStatements text style added = ⟨.emptyAt a.size,
        concat (added.map fun s => b.statementIndent text style ++ s.render ++ style.newline)⟩ := by
      simp [appendStatements, hline, ha]
    refine ⟨a, e, _, d, hgap, spaced_concat hindent hstyle.newline hblanks added, ?_⟩
    rw [happend, hgap.eq, List.append_assoc a e d, TextEdit.applyTo_emptyAt _ rfl]
    simp [Replacement.toEdit]
  | false =>
    have happend : b.appendStatements text style added =
        ⟨text.gapBefore ((b.statements.getLast?.map Range.stop).getD (b.opening + 1)) b.closing,
          concat (added.map fun s => style.newline ++ b.statementIndent text style ++ s.render) ++
            style.newline ++ text.lineIndent b.opening⟩ := by
      simp [appendStatements, hline]
    obtain ⟨hlaid, hfits⟩ := Code.statementRanges_spec (Nat.succ_le_of_lt hlt)
      (Code.seam_of_solid hopens (by decide)).2 (Code.seam_of_solid hcloses (by decide)).1
    have hstatements : b.statements =
        Code.statementRanges text.mask.cells (b.opening + 1) b.closing := by
      rw [heq]
      rfl
    obtain ⟨hafter, hle⟩ := hlaid.getLast_stop (Nat.succ_le_of_lt hlt)
    have hlast : text.isBoundary ((b.statements.getLast?.map Range.stop).getD (b.opening + 1)) =
        true ∧ ∃ d, text.mask.cells[(b.statements.getLast?.map Range.stop).getD
          (b.opening + 1) - 1]? = some d ∧ Code.isEnd d = true := by
      cases h : b.statements.getLast? with
      | none =>
        exact ⟨Text.isBoundary_of_seam (Code.seam_of_solid hopens (by decide)).2, '{', hopens,
          by decide⟩
      | some r =>
        have hr := List.mem_of_getLast? h
        exact ⟨Text.isBoundary_of_seam (hfits r (hstatements ▸ hr)).2.2,
          end_of_settled heq hsettled hr⟩
    rw [← hstatements] at hafter hle
    generalize (b.statements.getLast?.map Range.stop).getD (b.opening + 1) = last at *
    obtain ⟨a, e, d, hgap, hrange⟩ := ClosingGap.exists_of_gapBefore hopens hcloses hsettled
      hlast.1 hle hafter hlast.2
    have hspaced := spaced_concat (x := style.newline ++ b.statementIndent text style) (y := "")
      (b := (style.newline ++ text.lineIndent b.opening).toList) ?_ (by simp) ?_ added
    · refine ⟨a, e, _, d, hgap, hspaced, ?_⟩
      rw [happend, hrange, hgap.eq, TextEdit.applyTo_append _ rfl rfl]
      simp [Replacement.toEdit]
    · intro c hc
      rw [String.toList_append] at hc
      exact (List.mem_append.mp hc).elim (hstyle.newline c) (hindent c)
    · intro c hc
      rw [String.toList_append] at hc
      exact (List.mem_append.mp hc).elim (hstyle.newline c) (Text.blanks_lineIndent _ _ c)

end BlockLayout

namespace ParsedClass

variable {text : Text} {c : ParsedClass}

theorem blanks_indent (c : ParsedClass) (text : Text) :
    ∀ d ∈ (c.indent text).toList, isLayoutBlank d = true :=
  Text.blanks_lineIndent text c.layout.range.start

/-- The style of a class writes blanks only, whatever the source is. -/
theorem blanksOnly_style (c : ParsedClass) (text : Text) : (c.style text).BlanksOnly := by
  have hinfer := Style.BlanksOnly.infer (text.slice c.layout.range.start c.layout.range.stop)
    (c.blanks_indent text)
  have hnewline : ∀ d ∈ "\r\n".toList, isLayoutBlank d = true := by decide
  simp only [style]
  split
  · have hinfer := hinfer true
    generalize Style.infer _ _ _ = inferred at hinfer ⊢
    split
    · exact ⟨hinfer.indent, hinfer.indentUnit, hnewline⟩
    · exact hinfer
  · have hinfer := hinfer (c.bracesOnNewLine text)
    split
    · exact hinfer
    · rename_i first _
      refine ⟨Text.blanks_lineIndent text first.range.start, ?_, hinfer.newline⟩
      simp only
      split
      · exact hinfer.indentUnit
      · rename_i deeper hdeeper
        split
        · exact hinfer.indentUnit
        · -- The unit is the end of an indentation.
          have hsplit : (c.indent text).toList ++ deeper =
              (text.lineIndent first.range.start).toList :=
            List.append_eq_of_isPrefixOf?_eq_some hdeeper
          intro d hd
          rw [String.toList_ofList] at hd
          exact Text.blanks_lineIndent text first.range.start d
            (hsplit ▸ List.mem_append_right _ hd)

theorem range_of_mem_members (hlayout : c.layout ∈ Code.classLayouts text.mask.cells)
    {m : MemberLayout} (hm : m ∈ c.layout.members) : m.range ∈ Segment.ranges text.mask.cells
      (Code.afterMemberBlock text.mask.cells) (c.layout.opening + 1) c.layout.closing := by
  obtain ⟨-, -, -, hmembers⟩ := Code.classLayouts_parts hlayout
  have hrange : m.range ∈
      Code.memberRanges text.mask.cells (c.layout.opening + 1) c.layout.closing := by
    rw [← Code.map_range_memberLayout (Code.window text.mask.cells c.layout.name.start _)
      (Code.memberRanges ..), ← hmembers]
    exact List.mem_map_of_mem hm
  exact (List.mem_filter.mp hrange).1

/-- Where no member is open at the end of a class, each of its members ends with its terminator. -/
theorem end_of_settled (hlayout : c.layout ∈ Code.classLayouts text.mask.cells)
    (hsettled : c.layout.Settled text) {m : MemberLayout} (hm : m ∈ c.layout.members) :
    ∃ d, text.mask.cells[m.range.stop - 1]? = some d ∧ Code.isEnd d = true := by
  rcases (Code.Settled.end_of_mem hsettled (range_of_mem_members hlayout hm)).2 with h | h
  · exact ⟨_, h, by decide⟩
  · exact ⟨_, h, by decide⟩

section

variable (hc : c.Cuttable text) {style : Style} (hstyle : style.BlanksOnly) {m : Constructor}
  (hm : m.initializer = none) (name : String)
  (hlayout : c.layout ∈ Code.classLayouts text.mask.cells) (hsettled : c.layout.Settled text)
include hc hstyle hm hlayout hsettled

/-- On a line of its own, the closing brace keeps the blanks before it, and the constructor goes to
the front of the line. -/
theorem exists_closingGap_of_startsLine (hline : text.startsLine c.layout.closing = true) :
    ∃ a b d x y : Text, ClosingGap text a b d (Code.afterMemberBlock text.mask.cells)
        c.layout.opening c.layout.closing ∧ (∀ e ∈ x, isLayoutBlank e = true) ∧
      (∀ e ∈ y, isLayoutBlank e = true) ∧
      ((c.appendMembers text style [.constructor m]).toEdit name).applyTo text =
        .ok (a ++ (x ++ m.text style ++ y) ++ d) := by
  obtain ⟨hlaid, -⟩ := Code.classLayouts_spec hlayout
  obtain ⟨a, b, d, hgap, ha, hlt, hblanks⟩ :=
    ClosingGap.exists_of_startsLine hlaid.opens hlaid.closes hlaid.ordered hsettled hline
  have happend : c.appendMembers text style [.constructor m] =
      ⟨.emptyAt (text.lineStart c.layout.closing),
        renderAppended style (!c.layout.members.isEmpty) [.constructor m]⟩ := by
    simp [appendMembers, hline, hlt]
  refine ⟨a, b, d, (if c.layout.members.isEmpty then [] else style.newline.toList) ++
    style.indent.toList, style.newline.toList ++ b, hgap, ?_, ?_, ?_⟩
  · intro e he
    rcases List.mem_append.mp he with he | he
    · split at he
      · cases he
      · exact hstyle.newline e he
    · exact hstyle.indent e he
  · intro e he
    exact (List.mem_append.mp he).elim (hstyle.newline e) (hblanks e)
  · rw [happend, ← ha]
    obtain rfl := hgap.eq
    rw [List.append_assoc a b d, TextEdit.applyTo_emptyAt _ rfl]
    cases c.layout.members.isEmpty <;>
      simp [Replacement.toEdit, renderAppended, Member.render, m.render_eq hm style]

/-- Behind other code of its line, the closing brace moves to a line of its own. -/
theorem exists_closingGap_of_not_startsLine (hline : text.startsLine c.layout.closing = false) :
    ∃ a b d x y : Text, ClosingGap text a b d (Code.afterMemberBlock text.mask.cells)
        c.layout.opening c.layout.closing ∧ (∀ e ∈ x, isLayoutBlank e = true) ∧
      (∀ e ∈ y, isLayoutBlank e = true) ∧
      ((c.appendMembers text style [.constructor m]).toEdit name).applyTo text =
        .ok (a ++ (x ++ m.text style ++ y) ++ d) := by
  obtain ⟨hlaid, -⟩ := Code.classLayouts_spec hlayout
  obtain ⟨hlast, hle⟩ := hc.lastStop
  have happend : c.appendMembers text style [.constructor m] =
      ⟨text.gapBefore
          ((c.layout.members.getLast?.map (·.range.stop)).getD (c.layout.opening + 1))
          c.layout.closing,
        style.newline ++ m.render style ++ style.newline ++ c.indent text⟩ := by
    simp [appendMembers, hline, concat, Member.render]
  have hafter : c.layout.opening < (c.layout.members.getLast?.map (·.range.stop)).getD
      (c.layout.opening + 1) := by
    have := (hc.laid.members.getLast_stop hc.laid.ordered).1
    rwa [List.getLast?_map, Option.map_map] at this
  have hend : ∃ d, text.mask.cells[(c.layout.members.getLast?.map (·.range.stop)).getD
      (c.layout.opening + 1) - 1]? = some d ∧ Code.isEnd d = true := by
    cases h : c.layout.members.getLast? with
    | none => exact ⟨'{', hlaid.opens, by decide⟩
    | some last => exact end_of_settled hlayout hsettled (List.mem_of_getLast? h)
  generalize (c.layout.members.getLast?.map (·.range.stop)).getD (c.layout.opening + 1) = last at *
  obtain ⟨a, b, d, hgap, hrange⟩ := ClosingGap.exists_of_gapBefore hlaid.opens hlaid.closes hsettled
    hlast hle hafter hend
  refine ⟨a, b, d, style.newline.toList ++ style.indent.toList,
    style.newline.toList ++ (c.indent text).toList, hgap,
    fun e he => (List.mem_append.mp he).elim (hstyle.newline e) (hstyle.indent e),
    fun e he => (List.mem_append.mp he).elim (hstyle.newline e) (c.blanks_indent text e), ?_⟩
  rw [happend, hrange]
  generalize c.indent text = indent
  rw [hgap.eq, TextEdit.applyTo_append _ rfl rfl]
  simp [Replacement.toEdit, m.render_eq hm style]

/-- The constructor that is added to a class goes into white space before its closing brace, with
blanks around it. -/
theorem exists_closingGap :
    ∃ a b d x y : Text, ClosingGap text a b d (Code.afterMemberBlock text.mask.cells)
        c.layout.opening c.layout.closing ∧ (∀ e ∈ x, isLayoutBlank e = true) ∧
      (∀ e ∈ y, isLayoutBlank e = true) ∧
      ((c.appendMembers text style [.constructor m]).toEdit name).applyTo text =
        .ok (a ++ (x ++ m.text style ++ y) ++ d) := by
  cases hline : text.startsLine c.layout.closing with
  | true => exact exists_closingGap_of_startsLine hc hstyle hm name hlayout hsettled hline
  | false => exact exists_closingGap_of_not_startsLine hc hstyle hm name hlayout hsettled hline

end

end ParsedClass

end ClassRefactor
