import Mathlib.Data.List.Basic
import ClassRefactor.Proofs.Layout.WellLaid
import ClassRefactor.Proofs.Splice.Insert
import ClassRefactor.Proofs.Text.Line

/-!
# What is appended, and where

Parameters are inserted after the last one, statements before the brace of the block, and members
before the brace of the class. Indentation and line ends are chosen to fit the source, which does
not show in the content.
-/

namespace ClassRefactor

section

variable {text : Text} {style : Style}

/-- The style of a class consists of white space, whatever the source is. -/
theorem ParsedClass.blank_style (c : ParsedClass) (text : Text) : (c.style text).Blank := by
  have hindent : content (c.indent text) = [] := Text.content_lineIndent ..
  have hinfer := Style.Blank.infer (text.slice c.layout.range.start c.layout.range.stop) hindent
  simp only [ParsedClass.style]
  split
  · have hinfer := hinfer true
    split
    · exact ⟨hinfer.indent, hinfer.indentUnit, by simp only; decide⟩
    · exact hinfer
  · have hinfer := hinfer (c.bracesOnNewLine text)
    split
    · exact hinfer
    · rename_i first _
      refine ⟨Text.content_lineIndent .., ?_, hinfer.newline⟩
      simp only
      split
      · exact hinfer.indentUnit
      · rename_i deeper hdeeper
        split
        · exact hinfer.indentUnit
        · -- The unit is the end of an indentation.
          have hline := Text.content_lineIndent text first.range.start
          have hsplit : (c.indent text).toList ++ deeper =
              (text.lineIndent first.range.start).toList :=
            List.append_eq_of_isPrefixOf?_eq_some hdeeper
          rw [content, ← hsplit, Text.strip_append] at hline
          rw [content_ofList]
          exact (List.append_eq_nil_iff.mp hline).2

/-- Parameters as they are added to others, or to none. -/
def addedParameters (follows : Bool) (added : List Parameter) : String :=
  (if follows && !added.isEmpty then "," else "") ++ renderParameters added

/-- Where further parameters go: after the last one, or before the closing parenthesis. -/
def CallableLayout.parameterStop (c : CallableLayout) : Nat :=
  (c.params.getLast?.map fun p => p.range.stop).getD c.closing

theorem CallableLayout.content_parameterSeparator (c : CallableLayout) (text : Text)
    (hstyle : style.Blank) : content (c.parameterSeparator text style) = [','] := by
  unfold CallableLayout.parameterSeparator
  split
  · rfl
  · split
    · simp only [content_append, hstyle.newline, Text.content_lineIndent]
      rfl
    · rfl
  · simp only
    split
    · rename_i hcomma
      rw [content_ofList, ← Text.strip_trim, beq_iff_eq.mp hcomma]
      rfl
    · rfl

/-- Parameters are inserted after those that are there. -/
theorem CallableLayout.appendParameters_spec (c : CallableLayout) (text : Text)
    (hstyle : style.Blank) (added : List Parameter) :
    ∃ s, c.appendParameters text style added = ⟨.emptyAt c.parameterStop, s⟩ ∧
      content s = content (addedParameters (!c.params.isEmpty) added) := by
  unfold CallableLayout.appendParameters CallableLayout.parameterStop
  cases hlast : c.params.getLast? with
  | none =>
    have hnil : c.params = [] := by simpa using hlast
    exact ⟨_, rfl, by simp [addedParameters, hnil]⟩
  | some last =>
    have hne : c.params.isEmpty = false := by
      cases hparams : c.params with
      | nil => simp [hparams] at hlast
      | cons p ps => rfl
    refine ⟨_, rfl, ?_⟩
    cases added with
    | nil => simp [concat, addedParameters, renderParameters, joinWith]
    | cons p ps =>
      have hsep := c.content_parameterSeparator text hstyle
      have hmark : content (c.parameterSeparator text style) = content ", " := hsep
      have hadded := content_concat_separated (s := p.render) (ps.map Parameter.render) hmark
      rw [← List.map_cons, List.map_map] at hadded
      have hcomma : content "," = [','] := by decide
      simpa [addedParameters, renderParameters, hne, hsep, hcomma, Function.comp_def] using hadded

/-- A gap between two boundaries takes nothing but white space. -/
theorem Text.gapBefore_inserts {start stop : Nat} (hstart : text.isBoundary start = true)
    (hstop : text.isBoundary stop = true) (hle : start ≤ stop) (s : String) :
    Replacement.Inserts text stop ⟨text.gapBefore start stop, s⟩ := by
  unfold Text.gapBefore
  split
  · rename_i hwhite
    exact ⟨hstop, hstart, hstop, hle, Nat.le_refl _,
      Text.strip_eq_nil_iff.mpr fun c hc => List.all_eq_true.mp hwhite c hc⟩
  · exact Replacement.inserts_emptyAt hstop s

theorem Replacement.inserts_lineStart {pos : Nat} (hpos : text.isBoundary pos = true)
    (hline : text.startsLine pos = true) (s : String) :
    Replacement.Inserts text pos ⟨.emptyAt (text.lineStart pos), s⟩ := by
  have hle := Text.le_size_of_isBoundary hpos
  have hstart := Text.isBoundary_lineStart hle
  exact ⟨hpos, hstart, hstart, Nat.le_refl _, (Text.lineStart_spec hle).1,
    Text.strip_slice_lineStart hpos hline⟩

theorem BlockLayout.content_statementIndent (b : BlockLayout) (text : Text)
    (hstyle : style.Blank) : content (b.statementIndent text style) = [] := by
  unfold BlockLayout.statementIndent
  split
  · exact Text.content_lineIndent ..
  · simp [Text.content_lineIndent, hstyle.indentUnit]

/-- The end of the last range of a list, or a default, lies between the bounds of the list. -/
theorem Range.Laid.getLast_stop {lo hi : Nat} {rs : List Range} (h : Range.Laid lo hi rs)
    (hle : lo ≤ hi) :
    lo ≤ (rs.getLast?.map Range.stop).getD lo ∧ (rs.getLast?.map Range.stop).getD lo ≤ hi := by
  cases hlast : rs.getLast? with
  | none => exact ⟨Nat.le_refl _, hle⟩
  | some r =>
    obtain ⟨h1, h2, h3⟩ := h.within r (List.mem_of_getLast? hlast)
    exact ⟨by simp only [Option.map_some, Option.getD_some]; omega, h3⟩

/-- No range of a list ends after the last one. -/
theorem Range.Laid.stop_le_getLast {lo hi : Nat} {rs : List Range} (h : Range.Laid lo hi rs)
    {r : Range} (hr : r ∈ rs) : r.stop ≤ (rs.getLast?.map Range.stop).getD lo := by
  rcases List.eq_nil_or_concat rs with rfl | ⟨init, last, rfl⟩
  · cases hr
  · rw [List.concat_eq_append] at *
    simp only [List.getLast?_concat, Option.map_some, Option.getD_some]
    rcases List.mem_append.mp hr with hinit | hlast
    · have hbefore := (List.pairwise_append.mp h.ordered).2.2 r hinit last (by simp)
      have hnonempty := (h.within last (by simp)).2.1
      omega
    · exact Nat.le_of_eq (congrArg Range.stop (List.mem_singleton.mp hlast))

/-- Statements are inserted before the closing brace, and after the opening one. -/
theorem BlockLayout.appendStatements_spec {b : BlockLayout} {lo hi : Nat}
    (hlaid : b.WellLaid text.cells lo hi)
    (hstatements : ∀ r ∈ b.statements, text.isBoundary r.stop = true) (hstyle : style.Blank)
    (added : List Statement) :
    (b.appendStatements text style added).Inserts text b.closing ∧
      b.opening < (b.appendStatements text style added).range.start ∧
      content (b.appendStatements text style added).text =
        content (concat (added.map Statement.render)) := by
  have hclosing := (Text.isBoundary_of_ascii_cell hlaid.closes (by decide)).1
  have hopening := (Text.isBoundary_of_ascii_cell hlaid.opens (by decide)).2
  have hindent := b.content_statementIndent text hstyle
  unfold BlockLayout.appendStatements
  simp only
  split
  · rename_i hline
    refine ⟨Replacement.inserts_lineStart hclosing hline _, ?_, ?_⟩
    · exact Text.lt_lineStart hline hlaid.ordered hlaid.opens (by decide)
    · exact content_concat_congr fun s _ => by simp [hindent, hstyle.newline]
  · have hlast : text.isBoundary ((b.statements.getLast?.map Range.stop).getD (b.opening + 1)) =
        true := by
      cases h : b.statements.getLast? with
      | none => exact hopening
      | some r => exact hstatements r (List.mem_of_getLast? h)
    obtain ⟨h1, h2⟩ := hlaid.statements.getLast_stop hlaid.ordered
    have hinserts := fun s => Text.gapBefore_inserts hlast hclosing h2 s
    refine ⟨hinserts _, ?_, ?_⟩
    · unfold Text.gapBefore
      split
      · exact h1
      · exact hlaid.ordered
    · simp only [content_append, hstyle.newline, Text.content_lineIndent, List.append_nil]
      exact content_concat_congr fun s _ => by simp [hindent, hstyle.newline]

end

end ClassRefactor
