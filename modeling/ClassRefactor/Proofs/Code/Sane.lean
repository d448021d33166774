import ClassRefactor.Proofs.Code.Quiet
import ClassRefactor.Proofs.Text.Cells

/-!
# Scans of a source in parts

The mask of a text falls into those of its parts, each scanned from where the part before it leaves
off. What a scan that began in code keeps tells from the mode of a character where it was reached:
code in code, and a literal or a comment either within one or where its first character stands.
-/

namespace ClassRefactor

/-- Whether the scan stands in a literal. -/
def Place.inLiteral : Place → Bool
  | .quoted _ => true
  | .verbatim => true
  | .raw _ => true
  | .code _ => false
  | .lineComment => false
  | .blockComment _ => false

/-- Whether the scan stands in a comment. -/
def Place.inComment : Place → Bool
  | .lineComment => true
  | .blockComment _ => true
  | .code _ => false
  | .quoted _ => false
  | .verbatim => false
  | .raw _ => false

namespace Place

/-- A scan stands in code, in a literal or in a comment. -/
theorem kind (p : Place) :
    (∃ fresh, p = .code fresh) ∨ p.inLiteral = true ∨ p.inComment = true := by
  cases p with
  | code fresh => exact .inl ⟨fresh, rfl⟩
  | quoted | verbatim | raw => exact .inr (.inl rfl)
  | lineComment | blockComment => exact .inr (.inr rfl)

theorem not_inComment_of_inLiteral {p : Place} (h : p.inLiteral = true) : p.inComment = false := by
  cases p with
  | quoted | verbatim | raw => rfl
  | code | lineComment | blockComment => cases h

/-- In code a character begins a comment, begins a literal, or is code. -/
theorem stepCode_cases (fresh : Bool) (c : Char) (rest : Text) :
    (stepCode fresh c rest = (.comment, 0, .lineComment) ∧
        (c = '/' ∧ rest.head? = some '/' ∨ c = '#' ∧ fresh = true)) ∨
      (stepCode fresh c rest = (.comment, 1, .blockComment fresh) ∧
        c = '/' ∧ rest.head? = some '*') ∨
      (∃ held p, stepCode fresh c rest = (.literal, held, p) ∧ p.inLiteral = true) ∨
      stepCode fresh c rest = (.code, 0, .code (c == '\n' || (isLayoutBlank c && fresh))) := by
  unfold stepCode
  split
  · rename_i hline
    simp only [Bool.or_eq_true, Bool.and_eq_true, beq_iff_eq] at hline
    exact .inl ⟨rfl, hline⟩
  · split
    · rename_i hblock
      simp only [Bool.and_eq_true, beq_iff_eq] at hblock
      exact .inr (.inl ⟨rfl, hblock⟩)
    · split
      · exact .inr (.inr (.inl ⟨_, _, rfl, rfl⟩))
      · split
        · refine .inr (.inr (.inl ?_))
          dsimp only
          split <;> split <;> exact ⟨_, _, rfl, rfl⟩
        · split
          · exact .inr (.inr (.inl ⟨_, _, rfl, rfl⟩))
          · exact .inr (.inr (.inr rfl))

/-- What is read in a literal belongs to it. -/
theorem step_of_inLiteral {p : Place} (h : p.inLiteral = true) (c : Char) (rest : Text) :
    (p.step c rest).1 = .literal ∧ (p.step c rest).2.2.inComment = false := by
  cases p with
  | code | lineComment | blockComment => cases h
  | quoted close =>
    simp only [step]
    split
    · exact ⟨rfl, rfl⟩
    · refine ⟨rfl, ?_⟩
      simp only
      split <;> rfl
  | verbatim =>
    simp only [step]
    split
    · split <;> exact ⟨rfl, rfl⟩
    · exact ⟨rfl, rfl⟩
  | raw quotes =>
    simp only [step]
    split <;> exact ⟨rfl, rfl⟩

/-- A literal that its line ends holds nothing over. -/
theorem held_of_inLiteral {p : Place} (h : p.inLiteral = true) {c : Char} {rest : Text}
    (hfresh : (p.step c rest).2.2 = .code true) : (p.step c rest).2.1 = 0 ∧ c = '\n' := by
  cases p with
  | code | lineComment | blockComment => cases h
  | quoted close =>
    simp only [step] at hfresh ⊢
    split at hfresh
    · cases hfresh
    · rename_i hescape
      rw [if_neg hescape]
      simp only at hfresh
      split at hfresh
      · exact ⟨rfl, beq_iff_eq.mp (code.inj hfresh)⟩
      · cases hfresh
  | verbatim =>
    simp only [step] at hfresh
    split at hfresh
    · split at hfresh <;> cases hfresh
    · cases hfresh
  | raw quotes =>
    simp only [step] at hfresh
    split at hfresh <;> cases hfresh

/-- What is read in a comment belongs to it. -/
theorem step_of_inComment {p : Place} (h : p.inComment = true) (c : Char) (rest : Text) :
    (p.step c rest).1 = .comment ∧ (p.step c rest).2.2.inLiteral = false := by
  cases p with
  | code | quoted | verbatim | raw => cases h
  | lineComment =>
    refine ⟨rfl, ?_⟩
    simp only [step]
    split <;> rfl
  | blockComment fresh =>
    simp only [step]
    split <;> exact ⟨rfl, rfl⟩

end Place

/-- A blank in code is code. -/
theorem stepCode_blank {fresh : Bool} {c : Char} (hc : isLayoutBlank c = true) (rest : Text) :
    Place.stepCode fresh c rest = (.code, 0, .code (c == '\n' || fresh)) := by
  simp only [isLayoutBlank, Bool.or_eq_true, beq_iff_eq] at hc
  rcases hc with (((rfl | rfl) | rfl) | rfl) | rfl <;>
    simp [Place.stepCode, Place.opensString, verbatimMark_cons, isLayoutBlank]

namespace Scan

/-- The mask of the first part of a text. -/
def mask (s : Scan) : (front rest : Text) → Text
  | [], _ => []
  | c :: front, rest =>
    Text.maskOne c (s.next c (front ++ rest)).mode ++ (s.next c (front ++ rest)).mask front rest

theorem maskWith_modes (s : Scan) (t : Text) : Text.maskWith t (s.modes t) = s.mask t [] := by
  induction t generalizing s with
  | nil => simp [mask]
  | cons c t ih => rw [modes_cons, Text.maskWith_cons, ih, mask, List.append_nil]

theorem mask_append (s : Scan) (a b rest : Text) :
    s.mask (a ++ b) rest = s.mask a (b ++ rest) ++ (s.after a (b ++ rest)).mask b rest := by
  induction a generalizing s with
  | nil => rfl
  | cons c a ih =>
    rw [List.cons_append, mask, ih, mask, after, List.append_assoc, List.append_assoc]

theorem after_append (s : Scan) (a b rest : Text) :
    s.after (a ++ b) rest = (s.after a (b ++ rest)).after b rest := by
  induction a generalizing s with
  | nil => rfl
  | cons c a ih => rw [List.cons_append, after, ih, after, List.append_assoc]

@[simp] theorem size_mask (s : Scan) (front rest : Text) :
    Text.size (s.mask front rest) = Text.size front := by
  induction front generalizing s with
  | nil => rfl
  | cons c front ih => rw [mask, Text.size_append, ih, Text.size_maskOne, Text.size_cons]

theorem head?_mask (s : Scan) (c : Char) (front rest : Text) :
    (Text.cells (s.mask (c :: front) rest)).head? =
      some (Text.maskCell c (s.next c (front ++ rest)).mode) := by
  obtain ⟨n, -, hn⟩ := Text.exists_cells_cons c front
  rw [mask, Text.cells_append, Text.cells_maskOne, hn, List.replicate_succ]
  rfl

theorem getLast?_mask (s : Scan) (front : Text) (c : Char) (rest : Text) :
    (Text.cells (s.mask (front ++ [c]) rest)).getLast? =
      some (Text.maskCell c (s.after (front ++ [c]) rest).mode) := by
  obtain ⟨n, -, hn⟩ := Text.exists_cells_cons c front
  rw [mask_append, after_append, mask, mask, List.append_nil, Text.cells_append,
    Text.cells_maskOne, hn, List.replicate_succ', List.getLast?_append]
  simp [after]

/-- What a scan that began in code keeps: what is held over is no code, within a literal or a
comment the last character belonged to it, and the end of a line ends a literal at once. -/
structure Sane (s : Scan) : Prop where
  held : s.held ≠ 0 → s.mode ≠ .code
  literal : s.place.inLiteral = true → s.mode = .literal
  comment : s.place.inComment = true → s.mode = .comment
  line : s.mode = .literal → s.place = .code true → s.held = 0

theorem sane_start : start.Sane :=
  ⟨by simp [start], by simp [start, Place.inLiteral], by simp [start, Place.inComment],
    by simp [start]⟩

theorem Sane.next {s : Scan} (h : s.Sane) (c : Char) (rest : Text) : (s.next c rest).Sane := by
  obtain ⟨place, held, mode⟩ := s
  cases held with
  | succ held =>
    exact ⟨fun _ => h.held (Nat.succ_ne_zero held), h.literal, h.comment,
      fun hmode hplace => absurd (h.line hmode hplace) (Nat.succ_ne_zero held)⟩
  | zero =>
    simp only [Scan.next]
    rcases place.kind with ⟨fresh, rfl⟩ | hplace | hplace
    · simp only [Place.step]
      rcases Place.stepCode_cases fresh c rest with ⟨heq, -⟩ | ⟨heq, -⟩ | ⟨held, p, heq, hp⟩ | heq
      all_goals rw [heq]
      · exact ⟨by simp, by simp [Place.inLiteral], by simp, by simp⟩
      · exact ⟨by simp, by simp [Place.inLiteral], by simp, by simp⟩
      · refine ⟨by simp, by simp, by simp [Place.not_inComment_of_inLiteral hp], fun _ hfresh => ?_⟩
        obtain rfl : p = .code true := hfresh
        cases hp
      · exact ⟨by simp, by simp [Place.inLiteral], by simp [Place.inComment], by simp⟩
    · obtain ⟨hmode, hnext⟩ := Place.step_of_inLiteral hplace c rest
      refine ⟨fun _ => by simp [hmode], fun _ => hmode, fun hcomment => ?_,
        fun _ hfresh => (Place.held_of_inLiteral hplace hfresh).1⟩
      simp [hnext] at hcomment
    · obtain ⟨hmode, hnext⟩ := Place.step_of_inComment hplace c rest
      refine ⟨fun _ => by simp [hmode], fun hliteral => ?_, fun _ => hmode, fun hliteral => ?_⟩
      · simp [hnext] at hliteral
      · simp [hmode] at hliteral

theorem Sane.after {s : Scan} (h : s.Sane) (front rest : Text) : (s.after front rest).Sane := by
  induction front generalizing s with
  | nil => exact h
  | cons c front ih => exact ih (h.next c (front ++ rest))

/-- Code is read in code. -/
theorem Sane.inCode {s : Scan} (h : s.Sane) {c : Char} {rest : Text}
    (hmode : (s.next c rest).mode = .code) : s.InCode := by
  obtain ⟨place, held, mode⟩ := s
  cases held with
  | succ held => exact absurd hmode (h.held (Nat.succ_ne_zero held))
  | zero =>
    rcases place.kind with hplace | hplace | hplace
    · exact ⟨rfl, hplace⟩
    · cases hmode.symm.trans (Place.step_of_inLiteral hplace c rest).1
    · cases hmode.symm.trans (Place.step_of_inComment hplace c rest).1

/-- A character that begins no literal in code belongs to one only if the one before it does. -/
theorem Sane.literal_of_next {s : Scan} (h : s.Sane) {c : Char} {rest : Text}
    (hcode : ∀ fresh, (Place.stepCode fresh c rest).1 ≠ .literal)
    (hmode : (s.next c rest).mode = .literal) : s.mode = .literal := by
  obtain ⟨place, held, mode⟩ := s
  cases held with
  | succ held => exact hmode
  | zero =>
    rcases place.kind with ⟨fresh, rfl⟩ | hplace | hplace
    · exact absurd hmode (hcode fresh)
    · exact h.literal hplace
    · cases hmode.symm.trans (Place.step_of_inComment hplace c rest).1

/-- A quiet character begins no literal. -/
theorem Sane.literal_of_quiet {s : Scan} (h : s.Sane) {c : Char} {rest : Text}
    (hc : isQuiet c = true) (hquote : rest.head? ≠ some '"') (hdollar : rest.head? ≠ some '$')
    (hmode : (s.next c rest).mode = .literal) : s.mode = .literal :=
  h.literal_of_next (fun fresh => by simp [stepCode_quiet hc hquote hdollar]) hmode

/-- A blank begins no literal. -/
theorem Sane.literal_of_blank {s : Scan} (h : s.Sane) {c : Char} {rest : Text}
    (hc : isLayoutBlank c = true) (hmode : (s.next c rest).mode = .literal) :
    s.mode = .literal := by
  refine h.literal_of_next (fun fresh => ?_) hmode
  simp [stepCode_blank hc]

end Scan

/-- A cell that shows neither a blank nor a quote shows a character of code. -/
theorem code_of_maskCell {c d : Char} {mode : Mode} (h : Text.maskCell c mode = d)
    (hblank : isLayoutBlank d = false) (hquote : d ≠ '"') : mode = .code ∧ c = d := by
  cases mode with
  | code => exact ⟨rfl, h⟩
  | literal => exact absurd h.symm hquote
  | comment =>
    simp only [Text.maskCell] at h
    split at h
    · rename_i hc
      rw [← h, beq_iff_eq.mp hc] at hblank
      exact absurd hblank (by decide)
    · rw [← h] at hblank
      exact absurd hblank (by decide)

/-- Within a literal, the mask of what precedes ends with a quote. -/
theorem Scan.getLast?_mask_of_literal {front rest : Text}
    (h : (Scan.start.after front rest).mode = .literal) :
    (Text.cells (Scan.start.mask front rest)).getLast? = some '"' := by
  rcases List.eq_nil_or_concat front with rfl | ⟨init, c, rfl⟩
  · cases h
  · rw [List.concat_eq_append] at *
    rw [Scan.getLast?_mask, h]
    rfl

end ClassRefactor
