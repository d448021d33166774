import ClassRefactor.Proofs.Code.Segment
import ClassRefactor.Proofs.Layout.Class
import ClassRefactor.Proofs.Source.File

/-!
# Reading leaves no code out

A cut passes over blanks only while it is between two segments, and every other cell goes to the
segment that is open. So each cell that is no blank lies in a segment, and in one alone, since the
segments lie apart. A member list drops the segments that are a lone `;`, and a statement loses the
blanks at its end, which takes no other cell away.

Between the braces of a class each byte of code therefore belongs to one member, and between the
braces of a block to one statement. Only blanks, comments and stray semicolons stand between members,
and only blanks and comments between statements.
-/

namespace ClassRefactor

/-- Of ranges that lie apart, one at most holds a given offset. -/
theorem Range.Laid.countP_contains {lo hi : Nat} {rs : List Range} (h : Range.Laid lo hi rs)
    {r : Range} (hr : r ∈ rs) {p : Nat} (hp : r.contains p = true) :
    rs.countP (·.contains p) = 1 := by
  simp only [Range.contains, Bool.and_eq_true, decide_eq_true_eq] at hp
  induction rs generalizing lo with
  | nil => cases hr
  | cons s rs ih =>
    rcases List.mem_cons.mp hr with rfl | hr
    · have hrest : rs.countP (·.contains p) = 0 := by
        refine List.countP_eq_zero.mpr fun s hs => ?_
        have := (h.tail.within s hs).1
        simp only [Range.contains, Bool.and_eq_true, decide_eq_true_eq]
        omega
      rw [List.countP_cons_of_pos (by simpa [Range.contains] using hp), hrest]
    · have := (h.tail.within r hr).1
      rw [List.countP_cons_of_neg (by
        simp only [Range.contains, Bool.and_eq_true, decide_eq_true_eq]; omega)]
      exact ih h.tail hr

namespace Segment

variable {code : Code}

/-- Each cell that is no blank lies in a segment. The induction is on the cells that are left; the
segment that is open has all cells from its start on. -/
theorem exists_rangesFrom {rule : AfterBlock.Rule} {stop pos p : Nat} {s : State} {cells : Code}
    {c : Char} (hstop : stop ≤ code.length) (hcells : code.window pos stop = cells)
    (hlo : s.start.getD pos ≤ p) (hhi : p < stop) (hc : code[p]? = some c)
    (hblank : isLayoutBlank c = false) :
    ∃ r ∈ rangesFrom code rule stop s pos cells, r.contains p = true := by
  induction cells generalizing pos s with
  | nil =>
    have hend := Code.window_eq_nil hcells hstop
    cases hs : s.start with
    | none =>
      simp only [hs, Option.getD_none] at hlo
      omega
    | some start =>
      simp only [hs, Option.getD_some] at hlo
      exact ⟨⟨start, stop⟩, by simp [rangesFrom, hs], by simp [Range.contains, hlo, hhi]⟩
  | cons d rest ih =>
    obtain ⟨-, hd, hrest⟩ := Code.window_eq_cons hcells
    unfold rangesFrom
    split
    · rename_i hskip
      simp only [Bool.and_eq_true, Option.isNone_iff_eq_none] at hskip
      simp only [hskip.1, Option.getD_none] at hlo
      have hne : pos ≠ p := by
        rintro rfl
        rw [hd] at hc
        obtain rfl := Option.some.inj hc
        rw [hskip.2] at hblank
        cases hblank
      exact ih hrest.symm (by simp only [hskip.1, Option.getD_none]; omega)
    · simp only
      split
      · rcases Nat.lt_or_ge p (pos + 1) with hlt | hge
        · exact ⟨_, List.mem_cons_self, by simp [Range.contains, hlo, hlt]⟩
        · obtain ⟨r, hr, hp⟩ := ih (s := {}) hrest.symm hge
          exact ⟨r, List.mem_cons_of_mem _ hr, hp⟩
      · rename_i next hnext
        exact ih hrest.symm (by simpa [start_of_advance_eq_some hnext] using hlo)

theorem exists_ranges (rule : AfterBlock.Rule) {start stop p : Nat} {c : Char}
    (hstop : stop ≤ code.length) (hlo : start ≤ p) (hhi : p < stop) (hc : code[p]? = some c)
    (hblank : isLayoutBlank c = false) :
    ∃ r ∈ ranges code rule start stop, r.contains p = true :=
  exists_rangesFrom hstop rfl hlo hhi hc hblank

end Segment

namespace Code

variable {code : Code} {start stop p : Nat} {c : Char}

/-- A cell of a class body that is no blank lies in exactly one member, or is a stray `;`. -/
theorem countP_memberRanges (hle : start ≤ stop) (hstart : Seam code start)
    (hstop : Seam code stop) (hlo : start ≤ p) (hhi : p < stop) (hc : code[p]? = some c)
    (hblank : isLayoutBlank c = false) :
    (code.memberRanges start stop).countP (·.contains p) = 1 ∨
      (code.memberRanges start stop).countP (·.contains p) = 0 ∧ c = ';' := by
  obtain ⟨hlaid, -⟩ := memberRanges_spec hle hstart hstop
  by_cases hin : ∃ r ∈ code.memberRanges start stop, r.contains p = true
  · obtain ⟨r, hr, hp⟩ := hin
    exact .inl (hlaid.countP_contains hr hp)
  · obtain ⟨r, hr, hp⟩ := Segment.exists_ranges code.afterMemberBlock hstop.le hlo hhi hc hblank
    -- The segment of the cell is one that was dropped.
    have hdropped : r ∉ code.memberRanges start stop := fun hkept => hin ⟨r, hkept, hp⟩
    simp only [memberRanges, List.mem_filter, hr, true_and, Bool.not_eq_true', Bool.not_eq_false,
      Bool.and_eq_true, beq_iff_eq, Range.length] at hdropped
    simp only [Range.contains, Bool.and_eq_true, decide_eq_true_eq] at hp
    have hat : p = r.start := by omega
    rw [← hat, hc] at hdropped
    exact .inr ⟨List.countP_eq_zero.mpr fun r hr hp => hin ⟨r, hr, hp⟩,
      Option.some.inj hdropped.2⟩

/-- A cell of a block that is no blank lies in exactly one statement. -/
theorem countP_statementRanges (hle : start ≤ stop) (hstart : Seam code start)
    (hstop : Seam code stop) (hlo : start ≤ p) (hhi : p < stop) (hc : code[p]? = some c)
    (hblank : isLayoutBlank c = false) :
    (code.statementRanges start stop).countP (·.contains p) = 1 := by
  obtain ⟨hlaid, -⟩ := statementRanges_spec hle hstart hstop
  obtain ⟨r, hr, hp⟩ := Segment.exists_ranges code.afterStatementBlock hstop.le hlo hhi hc hblank
  have hr' := (Segment.ranges_spec code.afterStatementBlock hle hstart hstop).1.within r hr
  simp only [Range.contains, Bool.and_eq_true, decide_eq_true_eq] at hp
  -- The trimmed cells are blanks, so this one is not among them.
  have htrim : p < code.trimBlanks r.start r.stop := by
    refine Nat.lt_of_not_le fun hge => ?_
    obtain ⟨-, hblanks, -⟩ := runBack_spec isLayoutBlank (Nat.le_of_lt hr'.2.1)
      (Nat.le_trans hr'.2.2 hstop.le)
    obtain ⟨d, hd, hdblank⟩ := hblanks p hge hp.2
    rw [hc] at hd
    obtain rfl := Option.some.inj hd
    rw [hblank] at hdblank
    cases hdblank
  exact hlaid.countP_contains (List.mem_map.mpr ⟨r, hr, rfl⟩)
    (by simp [Range.contains, hp.1, htrim])

end Code

/-- The ranges hold all code of a text that stands between two offsets, but for `stray` cells. -/
structure Text.Covered (text : Text) (stray : Char → Prop) (lo hi : Nat) (rs : List Range) :
    Prop where
  /-- A byte that is not blank once comments are masked lies in exactly one range, or is stray and
  lies in none. -/
  once : ∀ p c, text.mask.cells[p]? = some c → lo ≤ p → p < hi → isLayoutBlank c = false →
    rs.countP (·.contains p) = 1 ∨ rs.countP (·.contains p) = 0 ∧ stray c
  /-- A character that begins in no range belongs to a comment, is a blank, or is stray. -/
  outside : ∀ (s : Text) d u, text = s ++ d :: u → lo ≤ s.size → s.size < hi →
    rs.countP (·.contains s.size) = 0 →
    text.modes[s.length]? = some .comment ∨ isLayoutBlank d = true ∨ stray d

/-- What the masked text shows of a character tells what the character is, comments apart. So
ranges that leave no cell out leave no character out. -/
theorem Text.Covered.of_once {text : Text} {stray : Char → Prop} {lo hi : Nat} {rs : List Range}
    (hquote : ¬stray '"')
    (h : ∀ p c, text.mask.cells[p]? = some c → lo ≤ p → p < hi → isLayoutBlank c = false →
      rs.countP (·.contains p) = 1 ∨ rs.countP (·.contains p) = 0 ∧ stray c) :
    text.Covered stray lo hi rs := by
  refine ⟨h, ?_⟩
  rintro s d u rfl hlo hhi hnone
  obtain ⟨mode, hmode, hcells⟩ := getElem?_cells_mask s d u
  have hcell := hcells 0 (Char.utf8Size_pos d)
  rw [Nat.add_zero] at hcell
  -- The cell is in no range, so it is a blank or stray.
  have hcase : isLayoutBlank (maskCell d mode) = true ∨ stray (maskCell d mode) := by
    cases hblank : isLayoutBlank (maskCell d mode) with
    | true => exact .inl rfl
    | false =>
      rcases h _ _ hcell hlo hhi hblank with hone | ⟨-, hstray⟩
      · omega
      · exact .inr hstray
  cases mode with
  | code => exact .inr hcase
  | comment => exact .inl hmode
  | literal =>
    rcases hcase with hblank | hstray
    · cases hblank
    · exact absurd hstray hquote

namespace SourceFile

/-- Every text can be read, and no code of a class is lost: between its braces all code lies in its
members, each byte in one of them, but for stray semicolons; and between the braces of a body all
code lies in the statements, each byte in one of them. -/
theorem parse_covers_code (text : Text) :
    ∃ file, parse text = .ok file ∧ ∀ c ∈ file.classes,
      text.Covered (· = ';') (c.layout.opening + 1) c.layout.closing
        (c.layout.members.map MemberLayout.range) ∧
      ∀ m ∈ c.layout.members, ∀ k, m.shape.callable? = some k → ∀ b, k.body.block? = some b →
        text.Covered (fun _ => False) (b.opening + 1) b.closing b.statements := by
  obtain ⟨file, hfile⟩ := exists_parse text
  refine ⟨file, hfile, fun c hc => ?_⟩
  have hlayout := (layout_of_mem_classes hfile hc).1
  obtain ⟨hlaid, -⟩ := Code.classLayouts_spec hlayout
  obtain ⟨-, -, -, hmembers⟩ := Code.classLayouts_parts hlayout
  constructor
  · have hstart := (Code.seam_of_solid hlaid.opens (by decide)).2
    have hstop := (Code.seam_of_solid hlaid.closes (by decide)).1
    rw [hmembers, Code.map_range_memberLayout]
    exact .of_once (by decide) fun p d hd hlo hhi hblank =>
      Code.countP_memberRanges hlaid.ordered hstart hstop hlo hhi hd hblank
  · intro m hm k hk b hb
    have hblock := ((hlaid.member m hm).callable k hk).block b hb
    obtain ⟨-, pos, stop, hbody⟩ := Code.classLayouts_callable? hlayout hm hk
    have hstart := (Code.seam_of_solid hblock.opens (by decide)).2
    have hstop := (Code.seam_of_solid hblock.closes (by decide)).1
    rw [Code.statements_of_body? hbody hb]
    exact .of_once (by simp) fun p d hd hlo hhi hblank => .inl <|
      Code.countP_statementRanges hblock.ordered hstart hstop hlo hhi hd hblank

end SourceFile

end ClassRefactor
