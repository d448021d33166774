import ClassRefactor.Proofs.Written.Parameter

/-!
# Written bodies

A block of assignments is found and read in the text that it is written as, and so is the `;` of a
callable without a body.
-/

namespace ClassRefactor

/-- A style that writes blanks only. -/
structure Style.BlanksOnly (style : Style) : Prop where
  indent : ∀ c ∈ style.indent.toList, isLayoutBlank c = true
  indentUnit : ∀ c ∈ style.indentUnit.toList, isLayoutBlank c = true
  newline : ∀ c ∈ style.newline.toList, isLayoutBlank c = true

theorem Style.BlanksOnly.openBrace {style : Style} (h : style.BlanksOnly) {indent : String}
    (hindent : ∀ c ∈ indent.toList, isLayoutBlank c = true) :
    ∃ b : Code, (∀ c ∈ b, isLayoutBlank c = true) ∧
      (style.openBrace indent).toList = b ++ ['{'] := by
  rw [Style.openBrace]
  split
  · refine ⟨style.newline.toList ++ indent.toList, ?_, by simp [String.toList_append]⟩
    intro c hc
    exact (List.mem_append.mp hc).elim (h.newline c) (hindent c)
  · exact ⟨[' '], by decide, rfl⟩

theorem printed_blanks {b : Code} (hb : ∀ c ∈ b, isLayoutBlank c = true) : Printed b := by
  intro c hc
  have := hb c hc
  simp only [isLayoutBlank, Bool.or_eq_true, beq_iff_eq] at this
  rcases this with (((rfl | rfl) | rfl) | rfl) | rfl <;> decide

theorem Segment.Spaced.printed {ms : List Code} {t : Code} (h : Segment.Spaced ms t)
    (hms : ∀ m ∈ ms, Printed m) : Printed t := by
  induction h with
  | nil hb => exact printed_blanks hb
  | cons hb _ ih =>
    exact ((printed_blanks hb).append (hms _ List.mem_cons_self)).append
      (ih fun n hn => hms n (List.mem_cons_of_mem _ hn))

/-- A statement without delimiters, which ends with its `;`. -/
structure Segment.Simple (m : Code) : Prop where
  head : ∃ c, m.head? = some c ∧ isIdentCell c = true
  parts : ∃ w, m = w ++ [';'] ∧ w ≠ [] ∧ ∀ c ∈ w, Segment.isFlat c = true ∧ c ≠ ';'

namespace Code

/-- Simple statements are found between their braces. -/
theorem stands_statementRanges {code i : Code} {pos : Nat} {ms : List Code}
    (hi : code.Shows pos i) (hspaced : Segment.Spaced ms i) (hms : ∀ m ∈ ms, Segment.Simple m) :
    List.Forall₂ code.Stands (code.statementRanges pos (pos + i.length)) ms := by
  have hsegments : ∀ m ∈ ms, (∃ c, m.head? = some c ∧ isLayoutBlank c = false ∧ c ≠ '=') ∧
      Segment.Cut code code.afterStatementBlock (pos + i.length) m := by
    intro m hm
    obtain ⟨⟨c, hc, hident⟩, w, rfl, hne, hw⟩ := hms m hm
    have hblank := isLayoutBlank_eq_false_of_isIdentCell hident
    refine ⟨⟨c, hc, hblank, ?_⟩, Segment.cut_simple ⟨c, ?_, hblank⟩ hw⟩
    · rintro rfl
      exact absurd hident (by decide)
    · rwa [List.head?_append_of_ne_nil _ hne] at hc
  have hstands := Segment.rangesFrom_spaced hspaced (fun m hm => (hsegments m hm).1)
    (fun m hm => (hsegments m hm).2) hi.window_self
  rw [statementRanges, Segment.ranges, hi.window_self, List.forall₂_map_left_iff]
  refine forall₂_imp_of_mem hstands fun r m hm hr => ?_
  obtain ⟨-, w, hw, -⟩ := hms m hm
  have htrim := trimBlanks_eq hr.shows ⟨';', by rw [hw]; simp, by decide⟩
  rw [← hr.stop] at htrim
  rw [htrim]
  exact hr

/-- A block without blocks in it is found where it opens. -/
theorem body?_block {code b i : Code} {pos : Nat}
    (hcells : code.drop pos = b ++ '{' :: (i ++ ['}'])) (hopen : '{' ∉ i) (hclose : '}' ∉ i) :
    code.body? (pos + b.length) code.length =
      some (.block (code.blockLayout (pos + b.length) (pos + b.length + 1 + i.length))) := by
  have hdrop : code.drop (pos + b.length) = '{' :: (i ++ ['}']) := by
    rw [← List.drop_drop, hcells, List.drop_left]
  have hcell : code[pos + b.length]? = some '{' := by rw [← List.head?_drop, hdrop]; rfl
  have hlt := (List.getElem?_eq_some_iff.mp hcell).1
  have hend : closeFrom '{' '}' 0 (i ++ ['}']) = some i.length := by
    rw [closeFrom_of_not_mem hopen hclose]
    rfl
  have hmatch : matchingClose? '{' '}' (code.take code.length) (pos + b.length) =
      some (pos + b.length + 1 + i.length) := by
    rw [List.take_length, matchingClose?, hdrop]
    simp [hend]
  rw [body?, if_neg (by omega), if_pos (by rw [hcell]; rfl), hmatch]
  rfl

end Code

namespace Statement.Plain

variable {s : Statement} (h : s.Plain)
include h

/-- A written statement is one segment. -/
theorem segment : ∃ w : Code, s.render.toList = w ++ [';'] ∧
    (∃ c, w.head? = some c ∧ isIdentCell c = true) ∧
    (∀ c ∈ w, isIdentCell c = true ∨ c = ' ' ∨ c = '=') ∧ Code.Undeclared w := by
  cases h with
  | @assignment target value htarget hvalue =>
    refine ⟨target.toList ++ ' ' :: '=' :: ' ' :: value.toList, ?_, ?_, ?_, ?_⟩
    · simp [Statement.render, String.toList_append]
    · refine ⟨target.toList.head htarget.ne_nil, ?_, htarget.ident _ (List.head_mem _)⟩
      rw [List.head?_append, List.head?_eq_some_head htarget.ne_nil]
      rfl
    · intro c hc
      simp only [List.mem_append, List.mem_cons] at hc
      rcases hc with hc | hc | hc | hc | hc
      · exact .inl (htarget.ident c hc)
      · exact .inr (.inl hc)
      · exact .inr (.inr hc)
      · exact .inr (.inl hc)
      · exact .inl (hvalue.ident c hc)
    · refine htarget.undeclared.split (by decide) ?_
      refine Code.Undeclared.split (l := []) (by decide) Code.undeclared_nil ?_
      exact Code.Undeclared.split (l := []) (by decide) Code.undeclared_nil hvalue.undeclared

theorem simple : Segment.Simple s.render.toList := by
  obtain ⟨w, hw, ⟨c, hc, hident⟩, hcells, -⟩ := h.segment
  have hne : w ≠ [] := by rintro rfl; cases hc
  refine ⟨⟨c, by rw [hw, List.head?_append_of_ne_nil _ hne, hc], hident⟩, w, hw, hne,
    fun d hd => ?_⟩
  rcases hcells d hd with hd | rfl | rfl
  · exact Segment.isFlat_of_isInert (Code.isInert_of_isIdentCell hd)
  · decide
  · decide

theorem printed : Printed s.render.toList := by
  cases h with
  | @assignment target value htarget hvalue =>
    have hrender : (Statement.assignment target value).render.toList =
        target.toList ++ ' ' :: '=' :: ' ' :: (value.toList ++ [';']) := by
      simp [Statement.render, String.toList_append]
    rw [hrender]
    refine htarget.printed.append (Printed.cons (Printed.cons (Printed.cons ?_ ?_) ?_) ?_)
    · exact hvalue.printed.append (by simp [Printed, isPrinted, isQuiet])
    · decide
    · decide
    · decide

/-- A statement is read where it stands. -/
theorem read_at {code : Code} {r : Range} (hcode : Printed code)
    (hr : code.Stands r s.render.toList) : Statement.read ⟨code, code⟩ r = .ok s := by
  obtain ⟨w, hw, -⟩ := h.segment
  have hle := hr.shows.length_le (by rw [hw]; simp)
  have hread : Text.read code r = .ok s.render.toList := by
    have := hcode.read hr.shows (by omega)
    rwa [← hr.stop] at this
  cases h with
  | @assignment target value htarget hvalue =>
    rw [Statement.read]
    simp only [hread, bind, Except.bind, pure, Except.pure]
    rw [(Statement.ofText_render_iff target value).mpr ⟨htarget.isName, hvalue.isName⟩]

end Statement.Plain

theorem Segment.Spaced.blanks_append {ms : List Code} {b t : Code}
    (hb : ∀ c ∈ b, isLayoutBlank c = true) (h : Segment.Spaced ms t) :
    Segment.Spaced ms (b ++ t) := by
  have hblanks : ∀ {l : Code}, (∀ c ∈ l, isLayoutBlank c = true) →
      ∀ c ∈ b ++ l, isLayoutBlank c = true :=
    fun hl c hc => (List.mem_append.mp hc).elim (hb c) (hl c)
  cases h with
  | nil hb' => exact .nil (hblanks hb')
  | cons hb' h =>
    rw [← List.append_assoc, ← List.append_assoc]
    exact .cons (hblanks hb') h

/-- Statements with blanks before and behind each. -/
theorem spaced_concat {x y : String} {b : Text} (hx : ∀ c ∈ x.toList, isLayoutBlank c = true)
    (hy : ∀ c ∈ y.toList, isLayoutBlank c = true) (hb : ∀ c ∈ b, isLayoutBlank c = true)
    (ss : List Statement) :
    Segment.Spaced (ss.map fun s => s.render.toList)
      ((concat (ss.map fun s => x ++ s.render ++ y)).toList ++ b) := by
  induction ss with
  | nil => exact .nil (by simpa [concat] using hb)
  | cons s ss ih =>
    have hsplit := Segment.Spaced.cons (m := s.render.toList) hx (ih.blanks_append hy)
    simpa [concat, String.toList_append] using hsplit

namespace Body.Plain

variable {style : Style} (hstyle : style.BlanksOnly)
include hstyle

theorem spaced_statements (ss : List Statement) :
    Segment.Spaced (ss.map fun s => s.render.toList)
      ((concat (ss.map fun s => style.newline ++ style.nested ++ s.render)).toList ++
        (style.newline ++ style.indent).toList) := by
  have := spaced_concat (x := style.newline ++ style.nested) (y := "")
    (b := (style.newline ++ style.indent).toList) ?_ (by simp) ?_ ss
  · simpa using this
  · intro c hc
    simp only [Style.nested, String.toList_append, List.mem_append] at hc
    rcases hc with hc | hc | hc
    · exact hstyle.newline c hc
    · exact hstyle.indent c hc
    · exact hstyle.indentUnit c hc
  · intro c hc
    rw [String.toList_append] at hc
    exact (List.mem_append.mp hc).elim (hstyle.newline c) (hstyle.indent c)

/-- The body of a callable as it is written. -/
theorem shape {body : Body} (h : body.Plain) :
    (body = .absent ∧ (body.render style).toList = [';']) ∨
      ∃ (ss : List Statement) (b i : Code), body = .block ss ∧ (∀ s ∈ ss, s.Plain) ∧
        (body.render style).toList = b ++ '{' :: (i ++ ['}']) ∧
        (∀ c ∈ b, isLayoutBlank c = true) ∧
        Segment.Spaced (ss.map fun s => s.render.toList) i ∧ Segment.Inner i := by
  cases h with
  | absent => exact .inl ⟨rfl, by simp [Body.render]⟩
  | @block ss hss =>
    obtain ⟨b, hb, hopen⟩ := hstyle.openBrace hstyle.indent
    have hspaced := spaced_statements hstyle ss
    have hsegments : ∀ m ∈ ss.map fun s => s.render.toList, ∃ w : Code, m = w ++ [';'] ∧
        (∀ c ∈ w, isIdentCell c = true ∨ c = ' ' ∨ c = '=') ∧ Code.Undeclared w := by
      intro m hm
      obtain ⟨s, hs, rfl⟩ := List.mem_map.mp hm
      obtain ⟨w, hw, -, hcells, hundeclared⟩ := (hss s hs).segment
      exact ⟨w, hw, hcells, hundeclared⟩
    refine .inr ⟨ss, b, _, rfl, hss, ?_, hb, hspaced, ⟨hspaced.flat ?_, hspaced.undeclared ?_⟩⟩
    · simp [Body.render, String.toList_append, hopen]
    · intro m hm c hc
      obtain ⟨w, rfl, hcells, -⟩ := hsegments m hm
      rcases List.mem_append.mp hc with hc | hc
      · rcases hcells c hc with hident | rfl | rfl
        · exact (Segment.isFlat_of_isInert (Code.isInert_of_isIdentCell hident)).1
        · decide
        · decide
      · rw [List.mem_singleton.mp hc]
        decide
    · intro m hm
      obtain ⟨w, rfl, -, hundeclared⟩ := hsegments m hm
      exact ⟨hundeclared.split (by decide) Code.undeclared_nil, ';', by simp, by decide⟩

omit hstyle in
/-- Written statements are found and read between their braces. -/
theorem statementRanges_read {ss : List Statement} (hss : ∀ s ∈ ss, s.Plain) {code i : Code}
    {pos : Nat} (hcode : Printed code) (hi : code.Shows pos i)
    (hspaced : Segment.Spaced (ss.map fun s => s.render.toList) i) :
    (code.statementRanges pos (pos + i.length)).mapM (Statement.read ⟨code, code⟩) = .ok ss := by
  have hstands := Code.stands_statementRanges hi hspaced fun m hm => by
    obtain ⟨s, hs, rfl⟩ := List.mem_map.mp hm
    exact (hss s hs).simple
  rw [List.forall₂_map_right_iff] at hstands
  rw [mapM_eq_ok_iff]
  exact forall₂_imp_of_mem hstands fun r s hs hr => (hss s hs).read_at hcode hr

/-- A written body is found and read at the end of a callable. -/
theorem read {body : Body} (h : body.Plain) {code : Code} {pos : Nat} (hcode : Printed code)
    (hcells : code.drop pos = (body.render style).toList) :
    ∃ (bodyStart : Nat) (layout : BodyLayout) (b : Code),
      code.bodyStartFrom code.length 0 pos (code.window pos code.length) = some bodyStart ∧
      code.body? bodyStart code.length = some layout ∧
      layout.read ⟨code, code⟩ = .ok body ∧
      Text.read code ⟨pos, min bodyStart code.length⟩ = .ok b ∧
      ∀ c ∈ b, isLayoutBlank c = true := by
  have hwindow : code.window pos code.length = (body.render style).toList := by
    rw [← hcells, Code.window, List.take_of_length_le (by simp)]
  rw [hwindow]
  rcases h.shape hstyle with ⟨rfl, hrender⟩ | ⟨ss, b, i, rfl, hss, hrender, hb, hspaced, hinner⟩
  · rw [hrender] at hcells hwindow ⊢
    obtain ⟨hlt, hcell, -⟩ := Code.window_eq_cons hwindow
    have hread : Text.read code ⟨pos, pos⟩ = .ok [] :=
      hcode.read List.nil_prefix (Nat.le_of_lt hlt)
    refine ⟨pos, .absent, [], rfl, ?_, rfl, ?_, by simp⟩
    · rw [Code.body?, if_neg (by omega), hcell]
      rfl
    · rw [Nat.min_eq_left (Nat.le_of_lt hlt)]
      exact hread
  · rw [hrender] at hcells hwindow ⊢
    obtain ⟨hshows, hblock⟩ := Code.window_eq_append hwindow
    obtain ⟨hlt, -, hinside⟩ := Code.window_eq_cons hblock
    obtain ⟨hi, -⟩ := Code.window_eq_append hinside.symm
    have hstatements := statementRanges_read hss hcode hi hspaced
    refine ⟨pos + b.length,
      .block (code.blockLayout (pos + b.length) (pos + b.length + 1 + i.length)), b,
      Code.bodyStartFrom_blanks hb _ _ _,
      Code.body?_block hcells (hinner.not_mem rfl) (hinner.not_mem rfl), ?_, ?_, hb⟩
    · simp only [BodyLayout.read, Code.blockLayout, hstatements, bind, Except.bind, pure,
        Except.pure]
    · rw [Nat.min_eq_left (by omega)]
      exact hcode.read hshows (by omega)

theorem printed {body : Body} (h : body.Plain) : Printed (body.render style).toList := by
  rcases h.shape hstyle with ⟨rfl, hrender⟩ | ⟨ss, b, i, rfl, hss, hrender, hb, hspaced, -⟩
  · rw [hrender]
    simp [Printed, isPrinted, isQuiet]
  · rw [hrender]
    refine (printed_blanks hb).append (Printed.cons (Printed.append ?_ ?_) (by decide))
    · refine hspaced.printed fun m hm => ?_
      obtain ⟨s, hs, rfl⟩ := List.mem_map.mp hm
      exact (hss s hs).printed
    · simp [Printed, isPrinted, isQuiet]

end Body.Plain

end ClassRefactor
