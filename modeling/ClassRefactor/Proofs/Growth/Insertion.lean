import ClassRefactor.Proofs.Growth.Gap

/-!
# Text that is put behind other text

Quiet text may be put into code behind something on its line. It is its own mask there, and what
stands around it is masked as before.
-/

namespace ClassRefactor

namespace Scan

section

variable {t t' : Text} (ht : Mild t) (ht' : Calm t')
include ht ht'

/-- A character that begins no comment is read alike before such texts. -/
theorem next_mild {s : Scan} {c : Char} (hmode : (s.next c t).mode ≠ .comment) :
    s.next c t = s.next c t' := by
  by_cases hmark : t.head? = some '/' ∨ t.head? = some '*'
  · obtain ⟨place, held, mode⟩ := s
    cases held with
    | succ held => rfl
    | zero =>
      simp only [next] at hmode ⊢
      cases place with
      | code fresh =>
        -- Before such a mark, no solidus stands in code.
        have hne : (c == '/') = false := by
          rw [beq_eq_false_iff_ne]
          rintro rfl
          rcases hmark with h | h <;> simp [Place.step, Place.stepCode, h] at hmode
        have hquote := head?_append_calm [] ht.quote ht'.quote
        have hverbatim := verbatimMark_mild ht ht'.toMild c []
        have hrun := quoteRun_mild ht ht'.toMild c []
        rw [List.nil_append, List.nil_append] at hquote hverbatim hrun
        simp only [Place.step, Place.stepCode, hne, Bool.false_and, opensString_cons, hquote,
          hverbatim, hrun]
      | lineComment => rfl
      | blockComment fresh =>
        refine absurd ?_ hmode
        simp only [Place.step]
        split <;> rfl
      | quoted close => rfl
      | verbatim =>
        have hquote := head?_append_calm [] ht.quote ht'.quote
        rw [List.nil_append, List.nil_append] at hquote
        simp only [Place.step, hquote]
      | raw quotes =>
        have hrun : Place.quoteRun (c :: t) = Place.quoteRun (c :: t') := by
          have := quoteRun_append_calm ht.quote [c]
          exact this.trans (quoteRun_append_calm ht'.quote [c]).symm
        simp only [Place.step, hrun]
  · obtain ⟨hslash, hstar⟩ := not_or.mp hmark
    have hstep := step_mild ht ht'.toMild s.place c [] (by simp [hslash, ht'.slash])
      (by simp [hstar, ht'.star])
    rw [List.nil_append, List.nil_append] at hstep
    simp only [next, hstep]

/-- What ends outside of comments is read alike before such texts. -/
theorem front_mild {s : Scan} {front : Text} {c : Char}
    (hmode : (s.after (front ++ [c]) t).mode ≠ .comment) :
    s.mask (front ++ [c]) t = s.mask (front ++ [c]) t' ∧
      s.after (front ++ [c]) t = s.after (front ++ [c]) t' := by
  induction front generalizing s with
  | nil =>
    have hnext := next_mild ht ht' (s := s) (c := c) hmode
    simp only [List.nil_append, mask, after, hnext, and_self]
  | cons d front ih =>
    obtain ⟨e, hhead⟩ : ∃ e, (front ++ [c]).head? = some e := by
      cases front <;> exact ⟨_, rfl⟩
    have hahead : ∀ r : Text, (front ++ [c] ++ r).head? = some e := fun r => by
      rw [List.head?_append, hhead]
      rfl
    have hnext : s.next d (front ++ [c] ++ t) = s.next d (front ++ [c] ++ t') := by
      simp only [next, step_mild ht ht'.toMild s.place d (front ++ [c]) (by rw [hahead, hahead])
        (by rw [hahead, hahead])]
    obtain ⟨hmask, hafter⟩ := ih (s := s.next d (front ++ [c] ++ t)) hmode
    simp only [List.cons_append, mask, after]
    rw [hmask, hafter, hnext]
    exact ⟨rfl, rfl⟩

end

/-- The scan is in code, behind something on its line. -/
structure Amid (s : Scan) : Prop where
  held : s.held = 0
  place : s.place = .code false

namespace Amid

variable {s s' : Scan}

/-- What follows is read alike wherever it is reached so. -/
theorem mask_eq (h : s.Amid) (h' : s'.Amid) (t rest : Text) : s.mask t rest = s'.mask t rest := by
  cases t with
  | nil => rfl
  | cons c t =>
    have hnext : ∀ r, s.next c r = s'.next c r := fun r => by
      simp only [next, h.held, h'.held, h.place, h'.place]
    rw [mask, mask, hnext]

end Amid

/-- Behind a cell that is no blank, no line begins, unless it ends a literal with its line. -/
theorem Sane.fresh_next {s : Scan} (h : s.Sane) {c : Char} {rest : Text} {fresh : Bool}
    (hcell : isLayoutBlank (Text.maskCell c (s.next c rest).mode) = false) (hline : c ≠ '\n')
    (hplace : (s.next c rest).place = .code fresh) : fresh = false := by
  rw [Bool.eq_false_iff]
  rintro rfl
  have hcomment : (s.next c rest).mode ≠ .comment := by
    intro hmode
    rw [hmode, Text.maskCell] at hcell
    split at hcell
    · exact hline (beq_iff_eq.mp ‹_›)
    · exact absurd hcell (by decide)
  obtain ⟨place, held, mode⟩ := s
  cases held with
  | succ held =>
    cases mode with
    | code => exact h.held (Nat.succ_ne_zero held) rfl
    | comment => exact hcomment rfl
    | literal => exact Nat.succ_ne_zero held (h.line rfl hplace)
  | zero =>
    simp only [Scan.next] at hcell hplace hcomment
    rcases place.kind with ⟨fresh, rfl⟩ | hliteral | hinside
    · simp only [Place.step] at hcell hplace hcomment
      rcases Place.stepCode_cases fresh c rest with ⟨heq, -⟩ | ⟨heq, -⟩ | ⟨held, p, heq, hp⟩ | heq
      all_goals rw [heq] at hcell hplace hcomment
      · exact hcomment rfl
      · exact hcomment rfl
      · obtain rfl : p = .code true := hplace
        cases hp
      · have hblank : isLayoutBlank c = false := hcell
        simp [hblank, hline] at hplace
    · exact hline (Place.held_of_inLiteral hliteral hplace).2
    · exact hcomment (Place.step_of_inComment hinside c rest).1

/-- Outside of comments, what is followed by no literal leaves the scan in code. -/
theorem Sane.inCode_of_next {s : Scan} (h : s.Sane) (hmode : s.mode ≠ .comment) {c : Char}
    {rest : Text} (hnext : (s.next c rest).mode ≠ .literal) : s.InCode := by
  obtain ⟨place, held, mode⟩ := s
  cases held with
  | succ held =>
    cases mode with
    | code => exact absurd rfl (h.held (Nat.succ_ne_zero held))
    | comment => exact absurd rfl hmode
    | literal => exact absurd rfl hnext
  | zero =>
    rcases place.kind with hplace | hplace | hplace
    · exact ⟨rfl, hplace⟩
    · exact absurd (Place.step_of_inLiteral hplace c rest).1 hnext
    · exact absurd (h.comment hplace) hmode

/-- Behind quiet text that ends with no blank, no line begins. -/
theorem InCode.amid_quiet {s : Scan} (h : s.InCode) {front rest : Text} {c : Char}
    (hfront : ∀ d ∈ front ++ [c], isQuiet d = true) (hquote : rest.head? ≠ some '"')
    (hdollar : rest.head? ≠ some '$') (hblank : isLayoutBlank c = false) :
    (s.after (front ++ [c]) rest).Amid := by
  obtain ⟨hheld, fresh, hplace⟩ := h.after_quiet hfront hquote hdollar
  refine ⟨hheld, ?_⟩
  have hc := hfront c (List.mem_append_right _ (List.mem_singleton_self c))
  have hsingle : ∀ d ∈ [c], isQuiet d = true := by simpa using hc
  have hahead := head?_append_quiet hsingle hquote hdollar
  have hbefore := h.after_quiet (fun d hd => hfront d (List.mem_append_left _ hd)) hahead.1 hahead.2
  rw [after_append, after, after, List.nil_append]
  generalize s.after front ([c] ++ rest) = s' at hbefore
  obtain ⟨place, held, mode⟩ := s'
  obtain ⟨rfl, fresh, rfl⟩ := hbefore
  have hne : c ≠ '\n' := by
    rintro rfl
    cases hblank
  simp [Scan.next, Place.step, stepCode_quiet hc hquote hdollar, hblank, hne]

/-- Between a cell that is no blank and one that is no quote, a scan is in code. -/
theorem inCode_behind {front rest : Text}
    (hlast : ∃ d, (Text.cells (start.mask front rest)).getLast? = some d ∧ isLayoutBlank d = false)
    (hnext : ∃ d, (Text.cells ((start.after front rest).mask rest [])).head? = some d ∧ d ≠ '"') :
    (start.after front rest).mode ≠ .comment ∧ (start.after front rest).InCode := by
  obtain ⟨d, hd, hsolid⟩ := hlast
  obtain ⟨e, he, hquote⟩ := hnext
  have hcomment : (start.after front rest).mode ≠ .comment := by
    intro hmode
    rcases List.eq_nil_or_concat front with rfl | ⟨init, c, rfl⟩
    · cases hd
    rw [List.concat_eq_append] at hd hmode
    rw [getLast?_mask, hmode, Text.maskCell, Option.some.injEq] at hd
    rw [← hd] at hsolid
    split at hsolid
    · rename_i hline
      rw [beq_iff_eq.mp hline] at hsolid
      cases hsolid
    · cases hsolid
  refine ⟨hcomment, ?_⟩
  cases rest with
  | nil => cases he
  | cons f rest =>
    have hliteral : ((start.after front (f :: rest)).next f rest).mode ≠ .literal := by
      intro hmode
      rw [head?_mask, List.append_nil, hmode, Text.maskCell, Option.some.injEq] at he
      exact hquote he.symm
    exact (sane_start.after front _).inCode_of_next hcomment hliteral

/-- In code, white space and commas are their own mask. -/
theorem InCode.mask_separator {s : Scan} (h : s.InCode) {front : Text}
    (hfront : ∀ c ∈ front, isWhite c = true ∨ c = ',') (rest : Text) : s.mask front rest = front := by
  induction front generalizing s with
  | nil => rfl
  | cons c front ih =>
    have hne : c ≠ '/' ∧ c ≠ '#' ∧ c ≠ '@' ∧ c ≠ '"' ∧ c ≠ '$' ∧ c ≠ '\'' := by
      rcases hfront c List.mem_cons_self with hc | rfl
      · refine ⟨?_, ?_, ?_, ?_, ?_, ?_⟩ <;> rintro rfl <;> exact absurd hc (by decide)
      · decide
    have hnext : (s.next c (front ++ rest)).mode = .code ∧ (s.next c (front ++ rest)).InCode := by
      obtain ⟨place, held, mode⟩ := s
      obtain ⟨rfl, fresh, rfl⟩ := h
      have hstep : Place.stepCode fresh c (front ++ rest) =
          (.code, 0, .code (c == '\n' || (isLayoutBlank c && fresh))) := by
        simp [Place.stepCode, verbatimMark_cons, opensString_cons, hne]
      simp only [Scan.next, Place.step, hstep]
      exact ⟨trivial, rfl, _, rfl⟩
    rw [mask, hnext.1, ih hnext.2 fun d hd => hfront d (List.mem_cons_of_mem _ hd)]
    rfl

/-- Code that shows a blank or a closing parenthesis begins, or is, neither a literal nor a name. -/
theorem InCode.mild {s : Scan} (h : s.InCode) {t : Text} {d : Char}
    (hd : (Text.cells (s.mask t [])).head? = some d) (hshown : isLayoutBlank d = true ∨ d = ')') :
    Mild t := by
  cases t with
  | nil => exact ⟨by simp, by simp, by simp⟩
  | cons c t =>
    have hne : c ≠ '"' ∧ c ≠ '$' ∧ c ≠ '@' := by
      rw [head?_mask, List.append_nil] at hd
      obtain ⟨place, held, mode⟩ := s
      obtain ⟨rfl, fresh, rfl⟩ := h
      simp only [Scan.next, Place.step] at hd
      rcases Place.stepCode_cases fresh c t with ⟨heq, hmark⟩ | ⟨heq, hmark, -⟩ |
        ⟨held, p, heq, -⟩ | heq
      all_goals rw [heq] at hd
      · rcases hmark with ⟨rfl, -⟩ | ⟨rfl, -⟩ <;> decide
      · rw [hmark]
        decide
      · obtain rfl : '"' = d := Option.some.inj hd
        rcases hshown with hblank | hparen
        · cases hblank
        · cases hparen
      · obtain rfl : c = d := Option.some.inj hd
        rcases hshown with hblank | rfl
        · refine ⟨?_, ?_, ?_⟩ <;> rintro rfl <;> cases hblank
        · decide
    exact ⟨by simpa using hne.1, by simpa using hne.2.1, fun hat => absurd (by simpa using hat) hne.2.2⟩

end Scan

namespace Text

/-- Trimming takes white space away at both ends. -/
theorem exists_trim (t : Text) : ∃ x y, t = x ++ t.trim ++ y ∧ (∀ c ∈ x, isWhite c = true) ∧
    ∀ c ∈ y, isWhite c = true := by
  obtain ⟨y, hy, hstrip⟩ := exists_trimEnd_append t.trimStart
  refine ⟨t.takeWhile isWhite, y, ?_, fun c hc => List.mem_takeWhile_imp hc, ?_⟩
  · rw [List.append_assoc, trim, ← hy, trimStart, List.takeWhile_append_dropWhile]
  · simpa [strip] using hstrip

/-- Where the mask shows blanks and commas behind code, a comma with white space around it is one with
blanks around it. -/
theorem exists_separator {text : Text} {i j : Nat} (hi : text.isBoundary i = true)
    (hj : text.isBoundary j = true) (hle : i ≤ j)
    (hsolid : ∃ d, text.mask.cells[i - 1]? = some d ∧ isLayoutBlank d = false) (hpos : 0 < i)
    (hcells : ∀ n, i ≤ n → n < j →
      ∃ c, text.mask.cells[n]? = some c ∧ (isLayoutBlank c = true ∨ c = ','))
    (htrim : (text.slice i j).trim = [',']) :
    ∃ x y, text.slice i j = x ++ ',' :: y ∧ (∀ c ∈ x, isLayoutBlank c = true) ∧
      ∀ c ∈ y, isLayoutBlank c = true := by
  obtain ⟨a, b, c, rfl, ha, hb⟩ := split_at_boundaries hi hj hle
  subst ha hb
  rw [slice_append] at htrim ⊢
  obtain ⟨x, y, hsplit, hx, hy⟩ := exists_trim b
  rw [htrim, List.append_assoc] at hsplit
  have hwhite : ∀ d ∈ b, isWhite d = true ∨ d = ',' := by
    intro d hd
    rw [hsplit] at hd
    simp only [List.mem_append, List.mem_singleton] at hd
    rcases hd with hd | rfl | hd
    · exact .inl (hx d hd)
    · exact .inr rfl
    · exact .inl (hy d hd)
  have hmask := mask_parts a b c
  have hfront : (cells (Scan.start.mask a (b ++ c))).length = a.size := by simp
  have hget : ∀ n, (a ++ b ++ c).mask.cells[a.size + n]? =
      (cells ((Scan.start.after a (b ++ c)).mask (b ++ c) []))[n]? := fun n => by
    rw [hmask, cells_append, ← hfront, List.getElem?_append_right (Nat.le_add_right ..),
      Nat.add_sub_cancel_left, Scan.mask_append, List.append_nil]
  have hmem : ',' ∈ b := by
    rw [hsplit]
    simp
  have hcode : (Scan.start.after a (b ++ c)).InCode := by
    refine (Scan.inCode_behind ?_ ?_).2
    · obtain ⟨d, hd, hblank⟩ := hsolid
      refine ⟨d, ?_, hblank⟩
      rw [List.getLast?_eq_getElem?, hfront, ← hd, hmask, cells_append,
        List.getElem?_append_left (by omega)]
    · have hsize : 0 < b.size := by
        rw [← length_cells]
        exact List.length_pos_of_mem (mem_cells.mpr hmem)
      obtain ⟨d, hd, hshown⟩ := hcells a.size (Nat.le_refl _) (by omega)
      have hzero := hget 0
      rw [Nat.add_zero, hd, ← List.head?_eq_getElem?] at hzero
      refine ⟨d, hzero.symm, ?_⟩
      rintro rfl
      rcases hshown with hblank | hcomma
      · cases hblank
      · cases hcomma
  -- The mask shows what is between as it is.
  have hshown : ∀ d ∈ b, isLayoutBlank d = true ∨ d = ',' := by
    intro d hd
    obtain ⟨n, hn⟩ := List.mem_iff_getElem?.mp (mem_cells.mpr hd)
    have hlt := (List.getElem?_eq_some_iff.mp hn).1
    rw [length_cells] at hlt
    obtain ⟨e, he, heshown⟩ := hcells (a.size + n) (by omega) (by omega)
    rw [hget, Scan.mask_append, List.append_nil, hcode.mask_separator hwhite, cells_append,
      List.getElem?_append_left (by rwa [length_cells]), hn] at he
    rwa [Option.some.inj he]
  have hblank : ∀ d ∈ b, isWhite d = true → isLayoutBlank d = true := by
    intro d hd hwhite
    refine (hshown d hd).resolve_right ?_
    rintro rfl
    exact absurd hwhite (by decide)
  refine ⟨x, y, hsplit, fun d hd => hblank d ?_ (hx d hd), fun d hd => hblank d ?_ (hy d hd)⟩
  · rw [hsplit]
    exact List.mem_append_left _ hd
  · rw [hsplit]
    exact List.mem_append_right _ (List.mem_cons_of_mem _ hd)

end Text

namespace Source

variable {text : Text} {u w : Source} (h : ofText text = u ++ w) (hu : u.Even)
include h

theorem text_of_parts : text = u.text ++ w.text := congrArg Source.text h

include hu

/-- The parts of a source are masked as a scan reaches them. -/
theorem mask_of_parts : Scan.start.mask u.text w.text = u.masked ∧
    (Scan.start.after u.text w.text).mask w.text [] = w.masked := by
  have hmasked : text.mask = u.masked ++ w.masked := congrArg Source.masked h
  have hscan : text.mask = Scan.start.mask text [] := Scan.start.maskWith_modes text
  rw [hscan, text_of_parts h, Scan.mask_append, List.append_nil] at hmasked
  exact Text.append_inj hmasked ((Scan.size_mask ..).trans hu)

/-- Quiet text that is put in front of a closing parenthesis is its own mask. -/
theorem ofText_put_before (hparen : w.masked.cells.head? = some ')') {t : Text}
    (hquiet : ∀ d ∈ t, isQuiet d = true) (hstar : t.head? ≠ some '*') :
    ofText (u.text ++ t ++ w.text) = u ++ plain t ++ w := by
  obtain ⟨hfront, hback⟩ := mask_of_parts h hu
  obtain ⟨utext, umasked⟩ := u
  obtain ⟨wtext, wmasked⟩ := w
  dsimp only at *
  obtain rfl := hfront
  obtain rfl := hback
  cases wtext with
  | nil => cases hparen
  | cons c rest =>
    rw [Scan.head?_mask, List.append_nil] at hparen
    obtain ⟨hmode, rfl⟩ := code_of_maskCell (Option.some.inj hparen) (by decide) (by decide)
    have hcode := (Scan.sane_start.after utext (')' :: rest)).inCode hmode
    have hcalm : Calm (')' :: rest) := ⟨⟨by simp, by simp, by simp⟩, by simp, by simp⟩
    have := ofText_exchangedQuiet (b := []) hcode hcalm (calm_append hquiet hstar hcalm) hquiet
      (by simp) (by simp)
      ((hcode.after_quiet hquiet (by simp) (by simp)).mask_solid hcode (by decide) (by decide) rest)
    exact this

/-- Quiet text that is put behind something on its line is its own mask. -/
theorem ofText_put_behind (hlast : ∃ d, u.masked.cells.getLast? = some d ∧ isLayoutBlank d = false)
    (hline : u.text.getLast? ≠ some '\n')
    (hnext : ∃ d, w.masked.cells.head? = some d ∧ (isLayoutBlank d = true ∨ d = ')')) {t : Text}
    (hquiet : ∀ d ∈ t, isQuiet d = true)
    (hhead : ∃ d, t.head? = some d ∧ (isLayoutBlank d = true ∨ d = ','))
    (hend : ∃ d, t.getLast? = some d ∧ isLayoutBlank d = false) :
    ofText (u.text ++ t ++ w.text) = u ++ plain t ++ w := by
  obtain ⟨hfront, hback⟩ := mask_of_parts h hu
  obtain ⟨utext, umasked⟩ := u
  obtain ⟨wtext, wmasked⟩ := w
  dsimp only at *
  obtain rfl := hfront
  obtain rfl := hback
  obtain ⟨d, hd, hsolid⟩ := hlast
  obtain ⟨e, he, hshown⟩ := hnext
  rcases List.eq_nil_or_concat utext with rfl | ⟨init, c, rfl⟩
  · cases hd
  rw [List.concat_eq_append] at *
  have hcell := (Scan.getLast?_mask Scan.start init c wtext).symm.trans hd
  rw [Option.some.injEq] at hcell
  have hcne : c ≠ '\n' := fun heq => hline (by rw [heq]; exact List.getLast?_concat)
  have hquote : e ≠ '"' := by
    rintro rfl
    rcases hshown with hblank | hparen
    · cases hblank
    · cases hparen
  obtain ⟨hcomment, hcode⟩ := Scan.inCode_behind ⟨d, hd, hsolid⟩ ⟨e, he, hquote⟩
  have hmild := hcode.mild he hshown
  have hamid : (Scan.start.after (init ++ [c]) wtext).Amid := by
    obtain ⟨hheld, fresh, hplace⟩ := hcode
    refine ⟨hheld, ?_⟩
    rw [Scan.after_append, Scan.after, Scan.after, List.nil_append] at hcell hplace ⊢
    rw [hplace, (Scan.sane_start.after ..).fresh_next (hcell ▸ hsolid) hcne hplace]
  have hcalm : Calm (t ++ wtext) := by
    obtain ⟨f, hf, hblank⟩ := hhead
    obtain ⟨rest, rfl⟩ := List.head?_eq_some_iff.mp hf
    have hne : ∀ g : Char, isLayoutBlank g = false → g ≠ ',' → f ≠ g := by
      rintro g hg hcomma rfl
      rcases hblank with hblank | hblank
      · rw [hblank] at hg
        cases hg
      · exact hcomma hblank
    have hquote := hne '"' (by decide) (by decide)
    have hdollar := hne '$' (by decide) (by decide)
    have hat := hne '@' (by decide) (by decide)
    have hslash := hne '/' (by decide) (by decide)
    have hstar := hne '*' (by decide) (by decide)
    exact ⟨⟨by simpa using hquote, by simpa using hdollar, fun heq => absurd (by simpa using heq) hat⟩,
      by simpa using hslash, by simpa using hstar⟩
  obtain ⟨hmask, hafter⟩ := Scan.front_mild hmild hcalm hcomment
  obtain ⟨g, hg, hgblank⟩ := hend
  obtain ⟨front, rfl⟩ := List.getLast?_eq_some_iff.mp hg
  have hbehind := hcode.amid_quiet hquiet hmild.quote hmild.dollar hgblank
  have hinserted := ofText_quiet (a := init ++ [c]) (b := front ++ [g]) (c := wtext)
    (hafter ▸ hcode) hquiet hmild.quote hmild.dollar
  rw [hinserted, ← hmask, ← hafter, hbehind.mask_eq hamid]

end Source

namespace Code

/-- A member that begins before some place and ends behind it is open there. -/
theorem isSome_memberCut {a c : Code} {start stop : Nat} (hc : Unassigned c)
    (hstart : start ≤ a.length) (hstop : stop ≤ c.length) {r : Range}
    (hr : r ∈ (a ++ c).memberRanges start (a.length + stop)) (hbefore : r.start < a.length)
    (hbehind : a.length < r.stop) : (a.memberCut start).2.start.isSome = true := by
  have hmem := (List.mem_filter.mp hr).1
  have hranges := ranges_between (l := []) hc hstart stop
  rw [List.append_nil, List.nil_append] at hranges
  rw [hranges, List.mem_append] at hmem
  rcases hmem with hmem | hmem
  · have := (within_memberCut hstart r hmem).2.1
    omega
  · by_contra hnone
    rw [Bool.not_eq_true, Option.isSome_eq_false_iff, Option.isNone_iff_eq_none] at hnone
    have hclear := @Segment.endedFrom_clear a a.afterMemberBlock a.length {} (fun _ => rfl) start
      (a.drop start) hnone
    rw [← memberCut] at hclear
    rw [hclear] at hmem
    have hfrom : a.length ≤ r.start :=
      (Segment.within_rangesFrom (Nat.le_refl _) (by rw [length_window]; omega) (by simp) r hmem).1
    omega

/-- Code that is put in front of blanks and a closing parenthesis: it closes what it opens, begins no
assignment, and no keyword in it declares a class. -/
structure Insertable (t b : Code) : Prop where
  closed : stackAfter [] t = some []
  unassigned : Unassigned t
  mute : Mute (t ++ (b ++ [')']))

namespace Insertable

variable {a t b rest : Code} (h : Insertable t b) (hb : ∀ c ∈ b, isLayoutBlank c = true)
include h hb

/-- Such code may be put there, whatever classes are declared around it. -/
theorem swappable {n : Nat}
    (hfront : a.EndsAt n ∨ n = a.length ∧ Halting (t ++ (b ++ ')' :: rest))) :
    Swappable a [] t (b ++ ')' :: rest) n := by
  have hparen : Halting (b ++ ')' :: rest) :=
    ⟨b, ')', rest, rfl, hb, by decide, by decide, by decide⟩
  have hsilent := h.mute.silent_left (.inr fun c hc => ?_) a rest
  · refine ⟨passed_of_stackAfter rfl a n, passed_of_stackAfter h.closed a n,
      (Mute.of_not_ident (by simp)).silent _ _, by simpa using hsilent, hparen.apart _,
      hparen.apart _, hfront.imp id fun hf => ⟨hf.1, fun l hl => ?_⟩⟩
    rcases hl with rfl | rfl
    · exact hparen
    · exact hf.2
  · have hc' : (b ++ ')' :: rest).head? = some c := by
      cases b with
      | nil => exact hc
      | cons d b => exact hc
    exact hparen.head hc'

/-- The members of a class correspond one by one when such code is put into one of them. -/
theorem memberRanges_moved {start stop : Nat} (hstart : start ≤ a.length) (hpos : 0 < stop)
    (hstop : stop ≤ (b ++ ')' :: rest).length) {r : Range}
    (hr : r ∈ (a ++ [] ++ (b ++ ')' :: rest)).memberRanges start ((a ++ []).length + stop))
    (hbefore : r.start < a.length) (hbehind : a.length < r.stop) :
    List.Forall₂ (Range.Moved a [] t)
      ((a ++ [] ++ (b ++ ')' :: rest)).memberRanges start ((a ++ []).length + stop))
      ((a ++ t ++ (b ++ ')' :: rest)).memberRanges start ((a ++ t).length + stop)) := by
  have hunassigned : Unassigned (b ++ ')' :: rest) := by
    refine (unassigned_blanks hb).append fun c hc => ?_
    rw [List.dropWhile_cons_of_neg (by decide)] at hc
    rw [← Option.some.inj hc]
    decide
  rw [List.append_nil] at hr
  have hopen := isSome_memberCut hunassigned hstart hstop hr hbefore hbehind
  exact Code.memberRanges_moved
    ⟨rfl, h.closed, hunassigned, hunassigned, h.unassigned.append hunassigned⟩ (.inl hopen) hpos hstop
    hstart

end Insertable

end Code

end ClassRefactor
