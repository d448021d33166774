import ClassRefactor.Proofs.Exchange.Mask
import ClassRefactor.Proofs.Exchange.Reading
import ClassRefactor.Proofs.Growth.Passed

/-!
# White space before a closing brace

What is added to a class or to a block takes the place of white space before its closing brace. Where
no segment is open there, quiet text is its own mask, what stands before and behind it is masked as
before, and the same keywords declare classes.
-/

namespace ClassRefactor

/-! Scans in code. -/

namespace Scan

/-- After a character of code, a scan stands in code. -/
theorem Sane.inCode_next {s : Scan} (h : s.Sane) {c : Char} {rest : Text}
    (hmode : (s.next c rest).mode = .code) : (s.next c rest).InCode := by
  have hcode := h.inCode hmode
  obtain ⟨place, held, mode⟩ := s
  obtain ⟨rfl, fresh, rfl⟩ := hcode
  simp only [Scan.next, Place.step] at hmode ⊢
  rcases Place.stepCode_cases fresh c rest with ⟨heq, -⟩ | ⟨heq, -⟩ | ⟨held, p, heq, -⟩ | heq
  · rw [heq] at hmode
    cases hmode
  · rw [heq] at hmode
    cases hmode
  · rw [heq] at hmode
    cases hmode
  · rw [heq]
    exact ⟨rfl, _, rfl⟩

/-- What a comment holds over is the second character of one of its marks. -/
def Poised (s : Scan) (rest : Text) : Prop :=
  s.mode = .comment → s.held = 0 ∨ s.held = 1 ∧ (rest.head? = some '*' ∨ rest.head? = some '/')

theorem Poised.next {s : Scan} {c : Char} {rest : Text} (h : s.Poised (c :: rest)) :
    (s.next c rest).Poised rest := by
  obtain ⟨place, held, mode⟩ := s
  cases held with
  | succ held =>
    intro hmode
    rcases h hmode with hzero | ⟨hone, -⟩
    · cases hzero
    · exact .inl (Nat.succ.inj hone)
  | zero =>
    simp only [Scan.next]
    rcases place.kind with ⟨fresh, rfl⟩ | hplace | hplace
    · simp only [Place.step]
      rcases Place.stepCode_cases fresh c rest with ⟨heq, -⟩ | ⟨heq, -, hstar⟩ | ⟨held, p, heq, -⟩ |
        heq
      all_goals rw [heq]
      · exact fun _ => .inl rfl
      · exact fun _ => .inr ⟨rfl, .inl hstar⟩
      · exact fun hmode => by cases hmode
      · exact fun hmode => by cases hmode
    · have hmode := (Place.step_of_inLiteral hplace c rest).1
      intro hcomment
      simp only at hcomment
      rw [hmode] at hcomment
      cases hcomment
    · cases place with
      | code | quoted | verbatim | raw => cases hplace
      | lineComment => exact fun _ => .inl rfl
      | blockComment fresh =>
        simp only [Place.step]
        split
        · rename_i hend
          rw [Bool.and_eq_true, beq_iff_eq, beq_iff_eq] at hend
          exact fun _ => .inr ⟨rfl, .inr hend.2⟩
        · exact fun _ => .inl rfl

theorem poised_start (t : Text) : start.Poised t := fun hmode => by cases hmode

theorem Poised.after {s : Scan} {front rest : Text} (h : s.Poised (front ++ rest)) :
    (s.after front rest).Poised rest := by
  induction front generalizing s with
  | nil => exact h
  | cons c front ih => exact ih h.next

/-- A scan that comes out of white space in code has come into it in code, or in a comment that ends
with a line of it, unless a literal shows. -/
theorem Sane.inCode_or_comment {s : Scan} {b rest : Text} (hsane : s.Sane)
    (hpoised : s.Poised (b ++ rest)) (hb : ∀ c ∈ b, isWhite c = true)
    (hmask : ∀ d ∈ Text.cells (s.mask b rest), d ≠ '"') (h : (s.after b rest).InCode) :
    s.InCode ∨ s.place = .lineComment ∧ s.held = 0 ∧ '\n' ∈ b := by
  induction b generalizing s with
  | nil => exact .inl h
  | cons c b ih =>
    have hwhite := hb c List.mem_cons_self
    have hcell := s.head?_mask c b rest
    rw [mask, Text.cells_append] at hmask
    have hnext := ih (hsane.next c (b ++ rest)) hpoised.next
      (fun d hd => hb d (List.mem_cons_of_mem _ hd))
      (fun d hd => hmask d (List.mem_append_right _ hd)) h
    have hliteral : (s.next c (b ++ rest)).mode ≠ .literal := by
      intro hmode
      rw [hmode] at hcell
      refine hmask '"' ?_ rfl
      rw [mask, Text.cells_append] at hcell
      exact List.mem_of_mem_head? hcell
    cases hmode : (s.next c (b ++ rest)).mode with
    | code => exact .inl (hsane.inCode hmode)
    | literal => exact absurd hmode hliteral
    | comment =>
      obtain ⟨place, held, mode⟩ := s
      cases held with
      | succ held =>
        -- White space is no second character of a mark.
        rcases hpoised hmode with hzero | ⟨-, hstar | hslash⟩
        · cases hzero
        · obtain rfl := Option.some.inj hstar
          exact absurd hwhite (by decide)
        · obtain rfl := Option.some.inj hslash
          exact absurd hwhite (by decide)
      | zero =>
        rcases place.kind with hplace | hplace | hplace
        · exact .inl ⟨rfl, hplace⟩
        · exact absurd ((Place.step_of_inLiteral hplace c (b ++ rest)).1) hliteral
        · cases place with
          | code | quoted | verbatim | raw => cases hplace
          | lineComment =>
            refine .inr ⟨rfl, rfl, ?_⟩
            by_cases hline : c = '\n'
            · exact hline ▸ List.mem_cons_self
            · rcases hnext with ⟨-, fresh, hcode⟩ | ⟨-, -, hmem⟩
              · simp [Scan.next, Place.step, hline] at hcode
              · exact List.mem_cons_of_mem _ hmem
          | blockComment fresh' =>
            have hstar : c ≠ '*' := by
              rintro rfl
              exact absurd hwhite (by decide)
            rcases hnext with ⟨-, fresh, hcode⟩ | ⟨hcode, -⟩ <;>
              simp [Scan.next, Place.step, hstar] at hcode

/-- A solid cell that begins no comment is read alike wherever in code it is reached. -/
theorem InCode.mask_solid {s s' : Scan} (h : s.InCode) (h' : s'.InCode) {c : Char}
    (hblank : isLayoutBlank c = false) (hc : c ≠ '/' ∧ c ≠ '#') (rest : Text) :
    s.mask (c :: rest) [] = s'.mask (c :: rest) [] := by
  have hnext : ∀ t, s.next c t = s'.next c t := by
    intro t
    obtain ⟨place, held, mode⟩ := s
    obtain ⟨place', held', mode'⟩ := s'
    obtain ⟨rfl, fresh, rfl⟩ := h
    obtain ⟨rfl, fresh', rfl⟩ := h'
    simp [Scan.next, Place.step, Place.stepCode, hc, hblank]
  rw [mask, mask, hnext]

end Scan

/-- Quiet text before calm text is calm. -/
theorem calm_append {front rest : Text} (hfront : ∀ c ∈ front, isQuiet c = true)
    (hstar : front.head? ≠ some '*') (hrest : Calm rest) : Calm (front ++ rest) := by
  cases front with
  | nil => exact hrest
  | cons d front =>
    have hd := hfront d List.mem_cons_self
    simp only [isQuiet, Bool.and_eq_true, bne_iff_ne] at hd
    have hnext := head?_append_quiet (fun e he => hfront e (List.mem_cons_of_mem _ he))
      hrest.quote hrest.dollar
    exact ⟨⟨by simpa using hd.1.1.2, by simpa using hd.2, fun _ => hnext.1⟩,
      by simpa using hd.1.1.1.1, by simpa using hstar⟩

namespace Source

/-- A source with quiet text at a place in code. -/
theorem ofText_quiet {a b c : Text} (hcode : (Scan.start.after a (b ++ c)).InCode)
    (hb : ∀ d ∈ b, isQuiet d = true) (hquote : c.head? ≠ some '"') (hdollar : c.head? ≠ some '$') :
    ofText (a ++ b ++ c) = ⟨a, Scan.start.mask a (b ++ c)⟩ ++ plain b ++
      ⟨c, ((Scan.start.after a (b ++ c)).after b c).mask c []⟩ := by
  have hwhole : (a ++ b ++ c).mask = Scan.start.mask (a ++ b ++ c) [] :=
    Scan.start.maskWith_modes _
  rw [ofText, hwhole, List.append_assoc, Scan.mask_append, List.append_nil, Scan.mask_append,
    List.append_nil, hcode.mask_quiet hb hquote hdollar]
  show Source.mk _ _ = Source.mk _ _
  simp [plain]

/-- Other quiet text there is its own mask too, and the mask around it stays. -/
theorem ofText_exchangedQuiet {a b b' c : Text} (hcode : (Scan.start.after a (b ++ c)).InCode)
    (hcalm : Calm (b ++ c)) (hcalm' : Calm (b' ++ c)) (hb' : ∀ d ∈ b', isQuiet d = true)
    (hquote : c.head? ≠ some '"') (hdollar : c.head? ≠ some '$')
    (hrest : ((Scan.start.after a (b ++ c)).after b' c).mask c [] =
      ((Scan.start.after a (b ++ c)).after b c).mask c []) :
    ofText (a ++ b' ++ c) = ⟨a, Scan.start.mask a (b ++ c)⟩ ++ plain b' ++
      ⟨c, ((Scan.start.after a (b ++ c)).after b c).mask c []⟩ := by
  have hafter := (Scan.modes_calm hcalm hcalm' Scan.start a).2
  rw [ofText_quiet (hafter ▸ hcode) hb' hquote hdollar, ← hafter, hrest,
    Scan.mask_calm hcalm hcalm' Scan.start a]

end Source

namespace Text

/-- The mask of a text in three parts. -/
theorem mask_parts (a b c : Text) : (a ++ b ++ c).mask = Scan.start.mask a (b ++ c) ++
    ((Scan.start.after a (b ++ c)).mask b c ++
      ((Scan.start.after a (b ++ c)).after b c).mask c []) := by
  have hmask : (a ++ b ++ c).mask = Scan.start.mask (a ++ b ++ c) [] := Scan.start.maskWith_modes _
  rw [hmask, List.append_assoc, Scan.mask_append, Scan.mask_append]
  simp only [List.append_nil]

theorem maskCell_white {c : Char} (hc : isWhite c = true) (mode : Mode) :
    maskCell c mode ≠ ';' ∧ maskCell c mode ≠ '}' := by
  cases mode with
  | code => constructor <;> rintro rfl <;> exact absurd hc (by decide)
  | literal => simp [maskCell]
  | comment =>
    simp only [maskCell]
    split
    · constructor <;> rintro rfl <;> exact absurd hc (by decide)
    · exact ⟨by decide, by decide⟩

end Text

/-- White space ends no segment, whatever it is masked as. -/
theorem Scan.mask_white {s : Scan} {b rest : Text} (hb : ∀ c ∈ b, isWhite c = true) :
    ∀ d ∈ Text.cells (s.mask b rest), d ≠ ';' ∧ d ≠ '}' := by
  induction b generalizing s with
  | nil => simp [Scan.mask]
  | cons c b ih =>
    intro d hd
    rw [Scan.mask, Text.cells_append, Text.cells_maskOne, List.mem_append] at hd
    rcases hd with hd | hd
    · rw [(List.mem_replicate.mp hd).2]
      exact Text.maskCell_white (hb c List.mem_cons_self) _
    · exact ih (fun e he => hb e (List.mem_cons_of_mem _ he)) d hd

theorem isQuiet_of_isWhite {c : Char} (hc : isWhite c = true) : isQuiet c = true := by
  simp only [isQuiet, Bool.and_eq_true, bne_iff_ne]
  refine ⟨⟨⟨⟨?_, ?_⟩, ?_⟩, ?_⟩, ?_⟩ <;> rintro rfl <;> exact absurd hc (by decide)

theorem calm_brace (rest : Text) : Calm ('}' :: rest) :=
  ⟨⟨by simp, by simp, by simp⟩, by simp, by simp⟩

theorem calm_white {b rest : Text} (hb : ∀ c ∈ b, isWhite c = true) (hrest : Calm rest) :
    Calm (b ++ rest) := by
  refine calm_append (fun c hc => isQuiet_of_isWhite (hb c hc)) (fun hstar => ?_) hrest
  exact absurd (hb _ (List.mem_of_mem_head? hstar)) (by decide)

/-- White space before the closing brace of a block or a class, in whose body no segment is open
there. It stands on the line of the brace, or right behind the code before it. -/
structure ClosingGap (text a b c : Text) (rule : AfterBlock.Rule) (opening closing : Nat) :
    Prop where
  eq : text = a ++ b ++ c
  opens : text.mask.cells[opening]? = some '{'
  closes : text.mask.cells[closing]? = some '}'
  before : opening < a.size
  behind : closing = (a ++ b).size
  white : ∀ d ∈ b, isWhite d = true
  code : '\n' ∉ b ∨ ∃ d, text.mask.cells[a.size - 1]? = some d ∧ Code.isEnd d = true
  settled : Code.Settled text.mask.cells rule (opening + 1) closing

/-- Blanks of a source in front of a closing brace, and text to put in their place. -/
structure Source.GapSwap (p : Source) (b t : Text) (q : Source) : Prop
    extends Source.Swap p (Source.plain b) (Source.plain t) q where
  ends : ∃ n, Code.EndsAt p.masked.cells n ∧ p.masked.cells[n]? ≠ some ']'
  blanks : ∀ d ∈ Text.cells b, isLayoutBlank d = true
  brace : q.masked.cells.head? = some '}'

namespace ClosingGap

variable {text a b c : Text} {rule : AfterBlock.Rule} {opening closing : Nat}
  (h : ClosingGap text a b c rule opening closing)
include h

/-- The mask falls into those of the three parts. -/
theorem mask_eq : text.mask = Scan.start.mask a (b ++ c) ++
    ((Scan.start.after a (b ++ c)).mask b c ++
      ((Scan.start.after a (b ++ c)).after b c).mask c []) := by
  rw [h.eq]
  exact Text.mask_parts a b c

theorem exists_brace : ∃ rest, c = '}' :: rest ∧
    ((Scan.start.after a (b ++ c)).after b c).InCode := by
  have hcell := h.closes
  rw [h.mask_eq, Text.cells_append, Text.cells_append,
    List.getElem?_append_right (by simp [h.behind]),
    List.getElem?_append_right (by simp [h.behind])] at hcell
  simp only [h.behind, Text.length_cells, Scan.size_mask, Text.size_append,
    Nat.add_sub_cancel_left, Nat.sub_self] at hcell
  have hsane : ((Scan.start.after a (b ++ c)).after b c).Sane :=
    (Scan.sane_start.after ..).after ..
  generalize (Scan.start.after a (b ++ c)).after b c = s at hcell hsane ⊢
  cases c with
  | nil => simp [Scan.mask] at hcell
  | cons d rest =>
    rw [← List.head?_eq_getElem?, Scan.head?_mask] at hcell
    obtain ⟨hmode, rfl⟩ := code_of_maskCell (Option.some.inj hcell) (by decide) (by decide)
    exact ⟨rest, rfl, hsane.inCode hmode⟩

/-- The gap shows blanks, and no segment is open before it. -/
theorem blanks :
    (∀ d ∈ Text.cells ((Scan.start.after a (b ++ c)).mask b c), isLayoutBlank d = true) ∧
      (Segment.endedFrom text.mask.cells rule closing {} (opening + 1)
        ((Text.cells (Scan.start.mask a (b ++ c))).drop (opening + 1))).2 = {} := by
  have hopening := h.before
  have hcells : Code.window text.mask.cells (opening + 1) closing =
      (Text.cells (Scan.start.mask a (b ++ c))).drop (opening + 1) ++
        Text.cells ((Scan.start.after a (b ++ c)).mask b c) := by
    have hparts := h.mask_eq
    rw [← List.append_assoc] at hparts
    have hsize : (Text.cells (Scan.start.mask a (b ++ c)) ++
        Text.cells ((Scan.start.after a (b ++ c)).mask b c)).length = closing := by
      rw [h.behind]
      simp
    rw [hparts, Text.cells_append, Text.cells_append, ← hsize, Code.window_append_left (Nat.le_refl _),
      Code.window_length, List.drop_append_of_le_length (by rwa [Text.length_cells, Scan.size_mask])]
  have hempty := Code.Settled.eq h.settled
  rw [hcells, Segment.endedFrom_append] at hempty
  obtain ⟨hopen, hblanks⟩ := Segment.blanks_of_endedFrom
    (Segment.endedFrom_clear (fun _ => rfl) _ _) (Scan.mask_white h.white) hempty
  exact ⟨hblanks, hopen⟩

/-- The code before the gap ends with the opening brace or with the end of a segment. -/
theorem ends : ∃ n, Code.EndsAt (Text.cells (Scan.start.mask a (b ++ c))) n ∧
    (Text.cells (Scan.start.mask a (b ++ c)))[n]? ≠ some ']' := by
  obtain ⟨front, blanks, hcells, hblanks, hfront⟩ := Segment.exists_end_of_endedFrom h.blanks.2
  have hopen := h.opens
  have hlt : opening < (Text.cells (Scan.start.mask a (b ++ c))).length := by
    simpa using h.before
  rw [h.mask_eq, Text.cells_append, List.getElem?_append_left hlt] at hopen
  generalize Text.cells (Scan.start.mask a (b ++ c)) = code at *
  rcases hfront with rfl | ⟨d, hd, hend⟩
  · refine ⟨opening, ⟨⟨'{', hopen, rfl⟩, ?_⟩, by rw [hopen]; decide⟩
    rw [hcells]
    exact hblanks
  · obtain ⟨init, rfl⟩ := List.getLast?_eq_some_iff.mp hd
    have hget : code[opening + 1 + init.length]? = some d := by
      rw [← List.getElem?_drop, hcells]
      simp
    have hdrop : code.drop (opening + 1 + init.length + 1) = blanks := by
      rw [Nat.add_assoc, ← List.drop_drop, hcells]
      simp
    refine ⟨opening + 1 + init.length, ⟨⟨d, hget, ?_⟩, ?_⟩, ?_⟩
    · rcases hend with rfl | rfl <;> rfl
    · rw [hdrop]
      exact hblanks
    · rw [hget]
      rcases hend with rfl | rfl <;> decide

/-- A scan comes to the gap in code. -/
theorem inCode : (Scan.start.after a (b ++ c)).InCode := by
  have hsane := Scan.sane_start.after a (b ++ c)
  rcases h.code with hline | ⟨d, hd, hend⟩
  · obtain ⟨rest, -, hcode⟩ := h.exists_brace
    refine (hsane.inCode_or_comment (Scan.poised_start _).after h.white (fun e he => ?_)
      hcode).resolve_right fun hcomment => hline hcomment.2.2
    rintro rfl
    exact absurd (h.blanks.1 _ he) (by decide)
  · have hpos := h.before
    rcases List.eq_nil_or_concat a with rfl | ⟨init, e, rfl⟩
    · cases hpos
    · rw [List.concat_eq_append] at *
      have hlength : (Text.cells (Scan.start.mask (init ++ [e]) (b ++ c))).length =
          Text.size (init ++ [e]) := by simp
      rw [h.mask_eq, Text.cells_append, List.getElem?_append_left (by omega), ← hlength,
        ← List.getLast?_eq_getElem?, Scan.getLast?_mask] at hd
      have hsolid : isLayoutBlank d = false ∧ d ≠ '"' := by
        refine ⟨(Code.not_of_isEnd hend).1, ?_⟩
        rintro rfl
        exact absurd hend (by decide)
      obtain ⟨hmode, -⟩ := code_of_maskCell (Option.some.inj hd) hsolid.1 hsolid.2
      rw [Scan.after_append] at hmode ⊢
      exact (Scan.sane_start.after ..).inCode_next hmode

/-- The parts of a source around the gap, with quiet text to put there. -/
theorem exists_swap {t : Text} (ht : ∀ e ∈ t, isQuiet e = true) (hstar : t.head? ≠ some '*') :
    ∃ p q : Source, p.text = a ∧ p.masked.size = a.size ∧
      Source.ofText text = p ++ Source.plain b ++ q ∧
      Source.ofText (a ++ t ++ c) = p ++ Source.plain t ++ q ∧ Source.GapSwap p b t q ∧
      (Segment.endedFrom text.mask.cells rule closing {} (opening + 1)
        (p.masked.cells.drop (opening + 1))).2 = {} := by
  obtain ⟨rest, rfl, hbrace⟩ := h.exists_brace
  have hcode := h.inCode
  have hends := h.ends
  obtain ⟨hblanks, hopen⟩ := h.blanks
  have hquiet : ∀ e ∈ b, isQuiet e = true := fun e he => isQuiet_of_isWhite (h.white e he)
  have hmask : (Scan.start.after a (b ++ '}' :: rest)).mask b ('}' :: rest) = b :=
    hcode.mask_quiet hquiet (by simp) (by simp)
  have hsource := Source.ofText_quiet hcode hquiet (by simp) (by simp)
  have hsource' := Source.ofText_exchangedQuiet hcode (calm_white h.white (calm_brace rest))
    (calm_append ht hstar (calm_brace rest)) ht (by simp) (by simp)
    ((hcode.after_quiet ht (by simp) (by simp)).mask_solid hbrace (by decide) (by decide) rest)
  rw [← h.eq] at hsource
  rw [hmask] at hblanks
  refine ⟨_, _, rfl, by simp, hsource, hsource', ⟨⟨⟨?_, Source.even_plain _, Source.even_plain _, ?_⟩,
    ?_⟩, hends, hblanks, ?_⟩, hopen⟩
  · simp [Source.Even]
  · simp [Source.Even]
  · rw [← hsource]
    exact Source.sound_ofText text
  · have hclose := h.closes
    change (Source.ofText text).masked.cells[closing]? = _ at hclose
    have hsize : closing = ((⟨a, Scan.start.mask a (b ++ '}' :: rest)⟩ : Source).masked.cells ++
        (Source.plain b).masked.cells).length := by
      rw [h.behind, List.length_append, Text.length_cells, Text.length_cells, Text.size_append]
      simp [Source.plain]
    rw [hsource, Source.cells_masked, hsize, List.getElem?_append_right (Nat.le_refl _),
      Nat.sub_self, ← List.head?_eq_getElem?] at hclose
    exact hclose

end ClosingGap

namespace Source.GapSwap

variable {p q : Source} {b t : Text} (h : GapSwap p b t q)
include h

/-- Text in which no class is declared may stand for the blanks. -/
theorem exists_swappable (ht : Code.Transparent (Text.cells t)) (hmute : Code.Mute (Text.cells t)) :
    ∃ n, Code.Swappable p.masked.cells (plain b).masked.cells (plain t).masked.cells
      q.masked.cells n := by
  obtain ⟨n, ha, hn⟩ := h.ends
  have hapart : ∀ l : Code, Code.Apart l q.masked.cells := fun l =>
    Code.apart_of_head h.brace (by decide)
  exact ⟨n, (Code.Transparent.of_blanks h.blanks).passed ha hn, ht.passed ha hn,
    (Code.Mute.of_blanks h.blanks).silent _ _, hmute.silent _ _, hapart _, hapart _, .inl ha⟩

end Source.GapSwap

end ClassRefactor
