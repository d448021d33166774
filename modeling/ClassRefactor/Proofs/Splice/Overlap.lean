import ClassRefactor.Proofs.Action.Addition
import ClassRefactor.Proofs.Edit.Merge
import ClassRefactor.Proofs.Exchange.Mask
import ClassRefactor.Proofs.Splice.Placed

/-!
# When replacements overlap

The replacements for a class apply, with one exception. Members are added where the line of the
closing brace begins. The last member, if nothing terminates it, reaches over the indentation of that
line up to the brace. If it is written anew too, the place for the new members lies within it, and
the edits are refused.
-/

namespace ClassRefactor

open Replacement (Placed Shut toEdit)

namespace ParsedClass

/-- Members are added before an indented closing brace, and an unterminated member, which reaches up
to the brace, is written anew. -/
structure Overlaps (c : ParsedClass) (text : Text) (new : ClassNode) : Prop where
  header : headerDiffers c.node new = false
  added : c.node.members.length < new.members.length
  indented : text.startsLine c.layout.closing = true ∧
    text.lineStart c.layout.closing < c.layout.closing
  reprinted : ∃ m ∈ c.layout.members, m.range.stop = c.layout.closing ∧
    ∃ member, m.reprint text (c.style text) member ∈ c.memberReplacements text new

variable {text : Text} {file : SourceFile} {c : ParsedClass} {new : ClassNode}

section

variable (hfile : SourceFile.parse text = .ok file) (hc : c ∈ file.classes)
include hfile hc

theorem within_of_mem_members {m : MemberLayout} (hm : m ∈ c.layout.members) :
    c.layout.opening < m.range.start ∧ m.range.start < m.range.stop ∧
      m.range.stop ≤ c.layout.closing :=
  (SourceFile.wellLaid_of_mem_classes hfile hc).members.within m.range (List.mem_map_of_mem hm)

/-- A member begins before the line of the closing brace, if that brace begins its line: blanks begin
no member. -/
theorem start_lt_lineStart {m : MemberLayout} (hm : m ∈ c.layout.members)
    (hline : text.startsLine c.layout.closing = true) :
    m.range.start < text.lineStart c.layout.closing := by
  obtain ⟨-, hlt, hclosing⟩ := within_of_mem_members hfile hc hm
  have hsound := Code.sound_of_mem_members (SourceFile.layout_of_mem_classes hfile hc).1 hm
  obtain ⟨d, hd, hblank⟩ := hsound.begins
  obtain ⟨e, he⟩ : ∃ e, text.cells[m.range.start]? = some e := by
    have hsize := (List.getElem?_eq_some_iff.mp hd).1
    rw [Text.length_cells, Text.size_mask, ← Text.length_cells] at hsize
    exact ⟨_, List.getElem?_eq_getElem hsize⟩
  rcases Nat.lt_or_ge m.range.start (text.lineStart c.layout.closing) with h | h
  · exact h
  · have hwhite : isLayoutBlank e = true := by
      rcases Text.blank_of_startsLine hline h (by omega) he with rfl | rfl | rfl <;> decide
    rw [Text.isLayoutBlank_of_seam hsound.seams.1 he hwhite hd] at hblank
    cases hblank

/-- A member with a terminator ends before the line of the closing brace. -/
theorem stop_le_lineStart {m : MemberLayout} (hm : m ∈ c.layout.members)
    (hline : text.startsLine c.layout.closing = true) (hne : m.range.stop ≠ c.layout.closing) :
    m.range.stop ≤ text.lineStart c.layout.closing := by
  obtain ⟨-, hlt, hclosing⟩ := within_of_mem_members hfile hc hm
  have hsound := Code.sound_of_mem_members (SourceFile.layout_of_mem_classes hfile hc).1 hm
  have hearlier : m.range.stop - 1 < text.lineStart c.layout.closing := by
    rcases hsound.ends with hend | hend | hend
    · exact absurd hend hne
    · exact Text.lt_lineStart hline (by omega)
        (Text.getElem?_cells_of_mask hend (by decide) (by decide)) (by decide)
    · exact Text.lt_lineStart hline (by omega)
        (Text.getElem?_cells_of_mask hend (by decide) (by decide)) (by decide)
  omega

theorem memberReplacements_placed (new : ClassNode) :
    Placed text ⟨c.layout.opening + 1, c.layout.closing⟩ (c.memberReplacements text new) := by
  have hlaid := SourceFile.wellLaid_of_mem_classes hfile hc
  have hread := SourceFile.readable_of_mem_classes hfile hc
  exact spliceMembers_placed hlaid.members hlaid.ordered
    (fun m hm => ⟨hlaid.member m hm, hread.members m hm⟩) (c.blank_style text) _ _

/-- A replacement for a member lies in it, and writes it anew or ends before a closing delimiter. -/
theorem exists_of_mem_memberReplacements {e : Replacement}
    (he : e ∈ c.memberReplacements text new) :
    ∃ m ∈ c.layout.members, (e.range.start < m.range.stop ∧ e.range.stop ≤ m.range.stop) ∧
      ((∃ member, e = m.reprint text (c.style text) member) ∨ Shut text m.range.stop e) := by
  obtain ⟨m, hm, old, member, hsplice⟩ := exists_of_mem_spliceMembers he
  obtain ⟨-, hne, -⟩ := within_of_mem_members hfile hc hm
  obtain ⟨hplaced, hkind⟩ := MemberLayout.splice_placed
    ((SourceFile.wellLaid_of_mem_classes hfile hc).member m hm)
    ((SourceFile.readable_of_mem_classes hfile hc).members m hm) hne (c.blank_style text) old member
  refine ⟨m, hm, (hplaced.within e hsplice).2.2, ?_⟩
  rcases hkind with heq | hshut
  · rw [heq] at hsplice
    exact .inl ⟨member, List.mem_singleton.mp hsplice⟩
  · exact .inr (hshut e hsplice)

/-- Unless the replacements overlap, those for the members that are there end before the place for
new ones. -/
theorem before_appendMembers (hheader : headerDiffers c.node new = false)
    (hlt : c.node.members.length < new.members.length) (hnot : ¬ c.Overlaps text new)
    (added : List Member) {e : Replacement} (he : e ∈ c.memberReplacements text new) :
    e.range.start < (c.appendMembers text (c.style text) added).range.start ∧
      e.range.stop ≤ (c.appendMembers text (c.style text) added).range.start := by
  have hcut := cuttable_of_mem_classes hfile hc
  obtain ⟨m, hm, hwithin, hkind⟩ := exists_of_mem_memberReplacements hfile hc he
  obtain ⟨-, hne, hclosing⟩ := within_of_mem_members hfile hc hm
  have hordered := ((memberReplacements_placed hfile hc new).within e he).2.1
  rw [appendMembers_range hcut]
  split
  · rename_i hline
    simp only [Range.emptyAt]
    have hupTo := (Text.lineStart_spec (Text.le_size_of_isBoundary hcut.closing.1)).1
    rcases hkind with ⟨member, rfl⟩ | ⟨k, hk, hkstop, hcell⟩
    · have hstop : m.range.stop ≤ text.lineStart c.layout.closing := by
        by_cases hend : m.range.stop = c.layout.closing
        · refine Nat.le_of_not_lt fun hindented => hnot ⟨hheader, hlt, ⟨hline, ?_⟩, m, hm, hend,
            member, he⟩
          omega
        · exact stop_le_lineStart hfile hc hm hline hend
      omega
    · have hearlier : k < text.lineStart c.layout.closing := by
        rcases hcell with hcell | hcell <;>
          exact Text.lt_lineStart hline (by omega) hcell (by decide)
      omega
  · have hlast : m.range.stop ≤
        (c.layout.members.getLast?.map (·.range.stop)).getD (c.layout.opening + 1) := by
      have := hcut.laid.members.stop_le_getLast (List.mem_map_of_mem hm)
      rwa [List.getLast?_map, Option.map_map] at this
    have hlastStop := hcut.lastStop.2
    unfold Text.gapBefore
    split
    · simp only
      omega
    · simp only [Range.emptyAt]
      omega

theorem appendMembers_placed (added : List Member) :
    Placed text ⟨(c.appendMembers text (c.style text) added).range.start, c.layout.range.stop⟩
        [c.appendMembers text (c.style text) added] ∧
      c.layout.opening < (c.appendMembers text (c.style text) added).range.start ∧
      (c.appendMembers text (c.style text) added).range.start ≤ c.layout.closing := by
  have hcut := cuttable_of_mem_classes hfile hc
  obtain ⟨hinserts, hafter⟩ := appendMembers_inserts hcut (c.style text) added
  have hordered := hinserts.ordered
  have hbefore := hinserts.before
  have hstop := hcut.laid.range_stop
  refine ⟨.singleton ⟨hinserts.start, hinserts.stop⟩ ?_, hafter, by omega⟩
  simp only
  omega

theorem expandOneLine_placed (added : List Member) :
    Placed text c.layout.range [c.expandOneLine text (c.style text) added] := by
  have hcut := cuttable_of_mem_classes hfile hc
  have hstop := hcut.laid.range_stop
  obtain ⟨hboundary, hfrom, hto, -⟩ := headerStop_spec hcut
  have hordered := hcut.laid.ordered
  rw [hcut.laid.header_start] at hfrom
  have hrange : (c.expandOneLine text (c.style text) added).range =
      ⟨c.headerStop text, c.layout.closing + 1⟩ := rfl
  refine .singleton ?_ ?_
  · rw [hrange]
    exact ⟨hboundary, hcut.closing.2⟩
  · rw [hrange]
    simp only
    omega

/-- The class as a whole can be replaced. -/
theorem whole_placed (s : String) : Placed text c.layout.range [⟨c.layout.range, s⟩] := by
  obtain ⟨hstart, hordered, hstop⟩ := (cuttable_of_mem_classes hfile hc).range_ordered
  have hread := (SourceFile.readable_of_mem_classes hfile hc).range
  refine .singleton ⟨Text.isBoundary_of_seam hread.2.1, Text.isBoundary_of_seam hread.2.2⟩ ?_
  simp only
  omega

end

/-- The replacements for a class come in order, whatever they are. -/
theorem splice_pairwise (c : ParsedClass) (text : Text) (new : ClassNode) :
    (c.splice text new).Pairwise fun a b => (a.range.order b.range).isLE = true := by
  by_cases hhead : headerDiffers c.node new = true ∨
      new.members.length < c.node.members.length
  · rw [splice_of_header text hhead]
    exact List.pairwise_singleton ..
  · obtain ⟨hheader, hle⟩ := not_or.mp hhead
    rw [splice_of_members text (Bool.eq_false_iff.mpr hheader) (Nat.le_of_not_lt hle)]
    refine List.pairwise_mergeSort (fun a b d => ?_) (fun a b => ?_) _
    · exact Range.isLE_order_trans
    · exact Range.isLE_order_total a.range b.range

/-- Replacements that overlap are those for the members that are there and the added ones. -/
theorem mem_splice_of_overlaps (h : c.Overlaps text new) {r : Replacement} :
    r ∈ c.splice text new ↔ r ∈ c.memberReplacements text new ∨
      r = c.appendMembers text (c.style text) (new.members.drop c.node.members.length) := by
  obtain ⟨m, -, -, member, hmem⟩ := h.reprinted
  have hadded : (new.members.drop c.node.members.length).isEmpty = false := by
    have := h.added
    rw [Bool.eq_false_iff, ne_eq, List.isEmpty_iff, List.drop_eq_nil_iff]
    omega
  have hedited : (c.memberReplacements text new).isEmpty = false := by
    rw [Bool.eq_false_iff, ne_eq, List.isEmpty_iff]
    exact List.ne_nil_of_mem hmem
  rw [splice_of_members text h.header (Nat.le_of_lt h.added), List.mem_mergeSort, spliceAdded,
    hadded, hedited]
  simp

section

variable (hfile : SourceFile.parse text = .ok file) (hc : c ∈ file.classes)
include hfile hc

/-- Replacements for members that are there and for added ones stay apart, unless they overlap. -/
theorem spliceAdded_placed (hheader : headerDiffers c.node new = false)
    (hle : c.node.members.length ≤ new.members.length) (hnot : ¬ c.Overlaps text new) :
    Placed text c.layout.range (c.spliceAdded text (c.style text) (c.memberReplacements text new)
      (new.members.drop c.node.members.length)) := by
  obtain ⟨hstart, hordered, hstop⟩ := (cuttable_of_mem_classes hfile hc).range_ordered
  have hmembers := memberReplacements_placed hfile hc new
  unfold spliceAdded
  split
  · exact hmembers.mono (by simp only; omega) (by simp only; omega)
  · rename_i hadded
    split
    · exact expandOneLine_placed hfile hc _
    · have hlt : c.node.members.length < new.members.length := by
        refine Nat.lt_of_le_of_ne hle fun heq => hadded ?_
        simp [heq]
      obtain ⟨hplaced, hafter, hbefore⟩ := appendMembers_placed hfile hc
        (new.members.drop c.node.members.length)
      have hfront := hmembers.upTo fun e he => before_appendMembers hfile hc hheader hlt hnot
        (new.members.drop c.node.members.length) he
      have hboth := hfront.append hplaced hafter (Nat.le_refl _) (by simp only; omega)
      exact hboth.mono (by simp only; omega) (Nat.le_refl _)

/-- Replacements that do not overlap are in their places. -/
theorem splice_placed (hnot : ¬ c.Overlaps text new) :
    Placed text c.layout.range (c.splice text new) := by
  by_cases hhead : headerDiffers c.node new = true ∨
      new.members.length < c.node.members.length
  · rw [splice_of_header text hhead]
    exact whole_placed hfile hc _
  · obtain ⟨hheader, hle⟩ := not_or.mp hhead
    have hheader := Bool.eq_false_iff.mpr hheader
    have hle := Nat.le_of_not_lt hle
    have hplaced := spliceAdded_placed hfile hc hheader hle hnot
    rw [splice_of_members text hheader hle, hplaced.mergeSort_eq]
    exact hplaced

/-- Each replacement by itself is in its place, even if two overlap. -/
theorem splice_within {r : Replacement} (hr : r ∈ c.splice text new) :
    (text.isBoundary r.range.start = true ∧ text.isBoundary r.range.stop = true) ∧
      c.layout.range.start ≤ r.range.start ∧ r.range.start ≤ r.range.stop ∧
      r.range.stop ≤ c.layout.range.stop := by
  obtain ⟨hstart, hordered, hstop⟩ := (cuttable_of_mem_classes hfile hc).range_ordered
  by_cases h : c.Overlaps text new
  · rcases (mem_splice_of_overlaps h).mp hr with hr | rfl
    · have hmembers := memberReplacements_placed hfile hc new
      have := hmembers.within r hr
      refine ⟨hmembers.boundary r hr, ?_⟩
      simp only at this
      omega
    · obtain ⟨hplaced, hafter, -⟩ := appendMembers_placed hfile hc
        (new.members.drop c.node.members.length)
      have := hplaced.within _ List.mem_cons_self
      refine ⟨hplaced.boundary _ List.mem_cons_self, ?_⟩
      simp only at this
      omega
  · have hplaced := splice_placed hfile hc h
    have := hplaced.within r hr
    exact ⟨hplaced.boundary r hr, this.1, this.2.1, this.2.2.2⟩

/-- Replacements that overlap are refused. -/
theorem normalized_of_overlaps (h : c.Overlaps text new) (name : String) :
    ∃ first second, WorkspaceEdit.normalized ⟨(c.splice text new).map (toEdit name)⟩ =
      .error (.overlapping name first second) := by
  obtain ⟨m, hm, hend, member, hreprint⟩ := h.reprinted
  have hrange := appendMembers_range (cuttable_of_mem_classes hfile hc) (c.style text)
    (new.members.drop c.node.members.length)
  rw [if_pos h.indented.1] at hrange
  have hordered : ∀ e ∈ (c.splice text new).map (toEdit name), e.range.start ≤ e.range.stop := by
    intro e he
    obtain ⟨r, hr, rfl⟩ := List.mem_map.mp he
    exact (splice_within hfile hc hr).2.2.1
  -- The place of the new members lies in the member that is written anew.
  have hfirst : toEdit name (m.reprint text (c.style text) member) ∈
      (c.splice text new).map (toEdit name) :=
    List.mem_map_of_mem ((mem_splice_of_overlaps h).mpr (.inl hreprint))
  have hsecond : toEdit name (c.appendMembers text (c.style text)
      (new.members.drop c.node.members.length)) ∈ (c.splice text new).map (toEdit name) :=
    List.mem_map_of_mem ((mem_splice_of_overlaps h).mpr (.inr rfl))
  have hrefused := TextEdit.not_exists_normalized hordered hfirst hsecond rfl
    (by
      simp only [toEdit, hrange]
      exact start_lt_lineStart hfile hc hm h.indented.1)
    (by
      simp only [toEdit, hrange, MemberLayout.reprint, hend]
      exact h.indented.2)
  cases hn : WorkspaceEdit.normalized ⟨(c.splice text new).map (toEdit name)⟩ with
  | ok w => exact absurd ⟨w, hn⟩ hrefused
  | error e =>
    obtain ⟨x, y, hsublist, -, -, rfl⟩ := TextEdit.normalized_eq_error hn
    have hy := TextEdit.mem_sorted.mp (hsublist.subset (List.mem_cons_of_mem x List.mem_cons_self))
    obtain ⟨r, -, rfl⟩ := List.mem_map.mp hy
    exact ⟨x.range, r.range, rfl⟩

end

/-- What becomes of the replacements for a class, for every new tree. They come in order, on
boundaries of the text and within the class. Unless they overlap as described, they stay apart, are
in normal form and can be applied, and nothing outside the class changes. If they do, they are
refused. -/
theorem splice_applies_unless_overlaps (text : Text) :
    ∃ file, SourceFile.parse text = .ok file ∧
      ∀ c ∈ file.classes, ∀ (new : ClassNode) (name : String),
        ((c.splice text new).Pairwise fun a b => (a.range.order b.range).isLE = true) ∧
        (∀ r ∈ c.splice text new,
          (text.isBoundary r.range.start = true ∧ text.isBoundary r.range.stop = true) ∧
            c.layout.range.start ≤ r.range.start ∧ r.range.start ≤ r.range.stop ∧
            r.range.stop ≤ c.layout.range.stop) ∧
        (¬ c.Overlaps text new →
          ((c.splice text new).Pairwise fun a b => a.range.stop ≤ b.range.start) ∧
          WorkspaceEdit.normalize ⟨(c.splice text new).map (toEdit name)⟩ =
            (.ok (), ⟨(c.splice text new).map (toEdit name)⟩) ∧
          ∃ t', text.applyEdits ((c.splice text new).map (toEdit name)) = .ok t' ∧
            text.SameOutside c.layout.range t') ∧
        (c.Overlaps text new → ∃ first second,
          WorkspaceEdit.normalize ⟨(c.splice text new).map (toEdit name)⟩ =
            (.error (.overlapping name first second), {})) := by
  obtain ⟨file, hfile⟩ := SourceFile.exists_parse text
  refine ⟨file, hfile, fun c hc new name => ⟨splice_pairwise c text new,
    fun r hr => splice_within hfile hc hr, fun hnot => ?_, fun hoverlaps => ?_⟩⟩
  · have hplaced := splice_placed hfile hc hnot
    have hrange := (SourceFile.readable_of_mem_classes hfile hc).range
    refine ⟨hplaced.apart.imp fun h => h.2, ?_, ?_⟩
    · rw [WorkspaceEdit.normalize, (hplaced.edits_apart name).normalized_eq]
    · exact (hplaced.fit name).exists_applyEdits (Text.isBoundary_of_seam hrange.2.1)
        (Text.isBoundary_of_seam hrange.2.2) hrange.1
  · obtain ⟨first, second, herror⟩ := normalized_of_overlaps hfile hc hoverlaps name
    exact ⟨first, second, by rw [WorkspaceEdit.normalize, herror]⟩

/-- A class whose last member nothing terminates. -/
def unterminatedText : Text := "class C \x7b\n  int x\n  \x7d".toList

/-- The same class with the terminator. -/
def terminatedText : Text := "class C \x7b\n  int x;\n  \x7d".toList

/-- A class with another member, and one more. -/
def twoFields : ClassNode where
  name := "C"
  members := [
    .field { modifiers := [], type := ⟨"int", [], ""⟩, declarators := [⟨"y", none⟩] },
    .field { modifiers := [], type := ⟨"int", [], ""⟩, declarators := [⟨"z", none⟩] }]

/-- The member that nothing terminates reaches up to the brace. -/
theorem exists_unterminated :
    ∃ (file : SourceFile) (c : ParsedClass), SourceFile.parse unterminatedText = .ok file ∧
      file.classes.head? = some c ∧ c.Overlaps unterminatedText twoFields := by
  have hrun : (SourceFile.parse unterminatedText).toOption.bind (fun f =>
      f.classes.head?.map fun c => (headerDiffers c.node twoFields, c.node.members.length,
        unterminatedText.startsLine c.layout.closing,
        decide (unterminatedText.lineStart c.layout.closing < c.layout.closing),
        c.layout.members.any fun m => m.range.stop == c.layout.closing &&
          twoFields.members.any fun member => (c.memberReplacements unterminatedText twoFields).any
            (· == m.reprint unterminatedText (c.style unterminatedText) member))) =
      some (false, 1, true, true, true) := by
    decide +kernel
  simp only [Option.bind_eq_some_iff, Option.map_eq_some_iff, toOption_eq_some_iff,
    Prod.mk.injEq] at hrun
  obtain ⟨file, hfile, c, hc, hheader, hlength, hline, hindented, hreprinted⟩ := hrun
  simp only [List.any_eq_true, Bool.and_eq_true, beq_iff_eq] at hreprinted
  obtain ⟨m, hm, hend, member, -, r, hr, rfl⟩ := hreprinted
  exact ⟨file, c, hfile, hc, hheader, by rw [hlength]; decide, ⟨hline, of_decide_eq_true hindented⟩,
    m, hm, hend, member, hr⟩

theorem splice_applies_unless_overlaps_fields :
    (∃ (file : SourceFile) (c : ParsedClass), SourceFile.parse terminatedText = .ok file ∧
      c ∈ file.classes ∧ ¬ c.Overlaps terminatedText twoFields ∧
      WorkspaceEdit.normalize ⟨(c.splice terminatedText twoFields).map (toEdit "C.cs")⟩ =
        (.ok (), ⟨(c.splice terminatedText twoFields).map (toEdit "C.cs")⟩)) ∧
    ∃ (file : SourceFile) (c : ParsedClass), SourceFile.parse unterminatedText = .ok file ∧
      c ∈ file.classes ∧ c.Overlaps unterminatedText twoFields ∧ ∃ first second,
        WorkspaceEdit.normalize ⟨(c.splice unterminatedText twoFields).map (toEdit "C.cs")⟩ =
          (.error (.overlapping "C.cs" first second), {}) := by
  constructor
  · obtain ⟨file, hfile, hall⟩ := splice_applies_unless_overlaps terminatedText
    have hrun : (SourceFile.parse terminatedText).toOption.bind (fun f =>
        f.classes.head?.map fun c =>
          c.layout.members.any fun m => m.range.stop == c.layout.closing) = some false := by
      decide +kernel
    simp only [hfile, Except.toOption, Option.bind_some, Option.map_eq_some_iff] at hrun
    obtain ⟨c, hhead, hends⟩ := hrun
    have hc := List.mem_of_mem_head? hhead
    have hnot : ¬ c.Overlaps terminatedText twoFields := by
      intro hoverlaps
      obtain ⟨m, hm, hend, -⟩ := hoverlaps.reprinted
      rw [Bool.eq_false_iff] at hends
      exact hends (List.any_eq_true.mpr ⟨m, hm, beq_iff_eq.mpr hend⟩)
    obtain ⟨-, -, happlies, -⟩ := hall c hc twoFields "C.cs"
    exact ⟨file, c, hfile, hc, hnot, (happlies hnot).2.1⟩
  · obtain ⟨file, hfile, hall⟩ := splice_applies_unless_overlaps unterminatedText
    obtain ⟨file', c, hfile', hhead, hoverlaps⟩ := exists_unterminated
    obtain rfl := Except.ok.inj (hfile.symm.trans hfile')
    have hc := List.mem_of_mem_head? hhead
    obtain ⟨-, -, -, hrefused⟩ := hall c hc twoFields "C.cs"
    exact ⟨file, c, hfile, hc, hoverlaps, hrefused hoverlaps⟩

/-- Two replacements for the class with the unterminated member overlap. -/
theorem splice_unterminated_overlaps :
    ∃ (file : SourceFile) (c : ParsedClass), SourceFile.parse unterminatedText = .ok file ∧
      c ∈ file.classes ∧ (∃ a ∈ c.splice unterminatedText twoFields,
        ∃ b ∈ c.splice unterminatedText twoFields, a.range = ⟨12, 20⟩ ∧ b.range = ⟨18, 18⟩) ∧
      ∃ first second,
        WorkspaceEdit.normalize ⟨(c.splice unterminatedText twoFields).map (toEdit "C.cs")⟩ =
          (.error (.overlapping "C.cs" first second), {}) := by
  obtain ⟨file, c, hfile, hhead, hoverlaps⟩ := exists_unterminated
  have hc := List.mem_of_mem_head? hhead
  have hrun : (SourceFile.parse unterminatedText).toOption.bind (fun f =>
      f.classes.head?.map fun c =>
        ((c.memberReplacements unterminatedText twoFields).map Replacement.range,
          (c.appendMembers unterminatedText (c.style unterminatedText)
            (twoFields.members.drop c.node.members.length)).range)) =
      some ([⟨12, 20⟩], ⟨18, 18⟩) := by
    decide +kernel
  simp only [hfile, Except.toOption, Option.bind_some, hhead, Option.map_some, Option.some.injEq,
    Prod.mk.injEq] at hrun
  obtain ⟨hmembers, hadded⟩ := hrun
  obtain ⟨a, ha, harange⟩ := List.mem_map.mp (hmembers ▸ List.mem_cons_self :
    (⟨12, 20⟩ : Range) ∈ (c.memberReplacements unterminatedText twoFields).map Replacement.range)
  obtain ⟨first, second, herror⟩ := normalized_of_overlaps hfile hc hoverlaps "C.cs"
  refine ⟨file, c, hfile, hc, ⟨a, (mem_splice_of_overlaps hoverlaps).mpr (.inl ha), _,
    (mem_splice_of_overlaps hoverlaps).mpr (.inr rfl), harange, hadded⟩, first, second, ?_⟩
  rw [WorkspaceEdit.normalize, herror]

end ParsedClass

end ClassRefactor
