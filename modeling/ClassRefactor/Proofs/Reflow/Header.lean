import ClassRefactor.Proofs.Reflow.Gap

/-!
# Other blanks before a class body

The opening brace of a class may stand on a line of its own, whether code or a line comment precedes
it. The class then has the head that it had, though the range of its tail is another one.
-/

namespace ClassRefactor

namespace Scan

/-- Blanks with a line feed lead into code, out of code or out of a line comment. -/
theorem inCode_after_line {s : Scan} (h : s.InCode ∨ s.place = .lineComment ∧ s.held = 0)
    {b rest : Text} (hb : ∀ c ∈ b, isLayoutBlank c = true) (hline : '\n' ∈ b)
    (hquote : rest.head? ≠ some '"') (hdollar : rest.head? ≠ some '$') :
    (s.after b rest).InCode ∧ ∀ d ∈ Text.cells (s.mask b rest), isLayoutBlank d = true := by
  have hcode : ∀ {s : Scan}, s.InCode → ∀ {b : Text}, (∀ c ∈ b, isLayoutBlank c = true) →
      (s.after b rest).InCode ∧ ∀ d ∈ Text.cells (s.mask b rest), isLayoutBlank d = true := by
    intro s hs b hb
    have hquiet : ∀ c ∈ b, isQuiet c = true := fun c hc =>
      isQuiet_of_isWhite (isWhite_of_isLayoutBlank (hb c hc))
    refine ⟨hs.after_quiet hquiet hquote hdollar, ?_⟩
    rw [hs.mask_quiet hquiet hquote hdollar]
    exact fun d hd => hb d (Text.mem_cells.mp hd)
  rcases h with hs | ⟨hplace, hheld⟩
  · exact hcode hs hb
  · induction b generalizing s with
    | nil => cases hline
    | cons c b ih =>
      have hrest := fun d hd => hb d (List.mem_cons_of_mem c hd)
      obtain ⟨place, held, mode⟩ := s
      dsimp only at hplace hheld
      subst hplace hheld
      have hnext : ((Scan.mk .lineComment 0 mode).next c (b ++ rest)).mode = .comment := rfl
      have hend : ((Scan.mk .lineComment 0 mode).after (c :: b) rest).InCode ∧
          ∀ d ∈ Text.cells (((Scan.mk .lineComment 0 mode).next c (b ++ rest)).mask b rest),
            isLayoutBlank d = true := by
        by_cases hc : c = '\n'
        · subst hc
          exact hcode ⟨rfl, true, rfl⟩ hrest
        · have hstay : ((Scan.mk .lineComment 0 mode).next c (b ++ rest)).place = .lineComment := by
            simp [Scan.next, Place.step, hc]
          refine ih hrest (by simpa [Ne.symm hc] using hline) hstay rfl
      refine ⟨hend.1, fun d hd => ?_⟩
      rw [mask, hnext, Text.cells_append, List.mem_append] at hd
      exact hd.elim (blanks_maskOne_comment c d) (hend.2 d)

end Scan

theorem calm_opening (rest : Text) : Calm ('{' :: rest) :=
  ⟨⟨by simp, by simp, by simp⟩, by simp, by simp⟩

namespace Source

/-- White space before an opening brace, whether code or a line comment precedes it. It shows as
blanks. -/
structure HeaderGap (text : Text) (u b w : Source) : Prop where
  eq : ofText text = u ++ b ++ w
  even : u.Even ∧ b.Even ∧ w.Even
  white : ∀ c ∈ b.text, isWhite c = true
  blanks : ∀ d ∈ b.masked.cells, isLayoutBlank d = true
  brace : w.masked.cells.head? = some '{'

namespace HeaderGap

variable {text : Text} {u b w : Source} (h : HeaderGap text u b w)
include h

/-- Blanks with a line feed may be put there. They show as blanks, and leave the mask around them as
it is. -/
theorem exists_ofText {b' : Text} (hb' : ∀ c ∈ b', isLayoutBlank c = true) (hline : '\n' ∈ b') :
    ∃ z : Source, z.text = b' ∧ z.Even ∧ (∀ d ∈ z.masked.cells, isLayoutBlank d = true) ∧
      ofText (u.text ++ b' ++ w.text) = u ++ z ++ w := by
  obtain ⟨hu, hb, -⟩ := h.even
  have hwhite' : ∀ c ∈ b', isWhite c = true := fun c hc => isWhite_of_isLayoutBlank (hb' c hc)
  have heq := h.eq
  rw [append_assoc] at heq
  obtain ⟨hfront, hback⟩ := mask_of_parts heq hu
  have hbrace := h.brace
  obtain ⟨wtext, wmasked⟩ := w
  simp only [text_append, masked_append] at hfront hback hbrace ⊢
  have hsane := Scan.sane_start.after u.text (b.text ++ wtext)
  have hpoised : (Scan.start.after u.text (b.text ++ wtext)).Poised (b.text ++ wtext) :=
    (Scan.poised_start _).after
  generalize hs : Scan.start.after u.text (b.text ++ wtext) = s at *
  rw [Scan.mask_append, List.append_nil] at hback
  obtain ⟨hgap, hrest⟩ := Text.append_inj hback ((Scan.size_mask ..).trans hb)
  -- The brace stands in code.
  obtain ⟨rest, rfl, hcode⟩ : ∃ rest, wtext = '{' :: rest ∧ (s.after b.text wtext).InCode := by
    rw [← hrest] at hbrace
    cases wtext with
    | nil => cases hbrace
    | cons c rest =>
      rw [Scan.head?_mask] at hbrace
      obtain ⟨hmode, rfl⟩ := code_of_maskCell (Option.some.inj hbrace) (by decide) (by decide)
      exact ⟨rest, rfl, (hsane.after ..).inCode hmode⟩
  have hbefore : s.InCode ∨ s.place = .lineComment ∧ s.held = 0 := by
    have hshown : ∀ d ∈ Text.cells (s.mask b.text ('{' :: rest)), d ≠ '"' := by
      rintro d hd rfl
      rw [hgap] at hd
      exact absurd (h.blanks _ hd) (by decide)
    exact (hsane.inCode_or_comment hpoised h.white hshown hcode).imp_right
      fun hcomment => ⟨hcomment.1, hcomment.2.1⟩
  have hhead : ('{' :: rest).head? ≠ some '"' ∧ ('{' :: rest).head? ≠ some '$' := by simp
  obtain ⟨hcode', hblanks⟩ := Scan.inCode_after_line hbefore hb' hline hhead.1 hhead.2
  have hcalm := calm_white h.white (calm_opening rest)
  have hcalm' := calm_white hwhite' (calm_opening rest)
  have hafter := (Scan.modes_calm hcalm hcalm' Scan.start u.text).2
  refine ⟨⟨b', s.mask b' ('{' :: rest)⟩, rfl, (Scan.size_mask ..).symm, hblanks, ?_⟩
  show Source.mk _ _ = Source.mk _ _
  rw [hs] at hafter
  rw [Text.mask_parts, ← hafter, ← Scan.mask_calm hcalm hcalm', hfront,
    hcode'.mask_solid hcode (by decide) (by decide), hrest, ← List.append_assoc]
  rfl

end HeaderGap

end Source

theorem Text.after_of_size_le {t : Text} {n : Nat} (h : t.size ≤ n) : t.after n = [] := by
  obtain ⟨k, rfl⟩ := Nat.exists_eq_add_of_le h
  have hbehind := after_append_size t [] k
  rw [List.append_nil] at hbehind
  rw [hbehind]
  rfl

/-- White space at the end of a text does not matter once it is trimmed. -/
theorem Text.trim_append_white (t : Text) {w : Text} (hw : ∀ c ∈ w, isWhite c = true) :
    (t ++ w).trim = t.trim := by
  rw [trim, trim, trimStart, trimStart, List.dropWhile_append]
  split
  · rename_i hempty
    rw [List.isEmpty_iff.mp hempty, List.dropWhile_eq_nil_iff.mpr hw]
  · rw [trimEnd, trimEnd, List.reverse_append,
      List.dropWhile_append_of_pos fun c hc => hw c (List.mem_reverse.mp hc)]

/-- A trimmed range that ends with white space reads what stands before that. -/
theorem Source.clause_before_white {a b c : Source} (hs : (a ++ b ++ c).Sound) (ha : a.Even)
    (hb : b.Even) (hwhite : ∀ d ∈ b.text, isWhite d = true) {start : Nat}
    (hfits : Code.Fits (a ++ b ++ c).masked.cells ⟨start, (a ++ b).masked.size⟩) :
    (a ++ b ++ c).clause ⟨start, (a ++ b).masked.size⟩ =
      .ok (if (a.text.after start).trim.isEmpty then none
        else some (.ofText (a.text.after start).trim)) := by
  have hslice : ((a ++ b ++ c).text.slice start (a ++ b).masked.size).trim =
      (a.text.after start).trim := by
    have heven : (a ++ b).text.size = (a ++ b).masked.size := ha.append hb
    have hboundary := Text.isBoundary_of_append (s := (a ++ b).text) (t := c.text)
      (hs _ hfits.2.1).1 (heven ▸ hfits.1)
    obtain ⟨x, y, hxy, rfl⟩ := Text.isBoundary_iff.mp hboundary
    have hwhole : (a ++ b ++ c).text = x ++ y ++ c.text := by
      rw [text_append, hxy]
    rw [← heven, hxy, Text.size_append, hwhole, Text.slice_append]
    rcases List.append_eq_append_iff.mp hxy with ⟨r, rfl, hr⟩ | ⟨z, hz, rfl⟩
    · rw [Text.after_of_size_le (by rw [Text.size_append]; omega)]
      exact Text.trim_append_white [] fun d hd => hwhite d (hr ▸ List.mem_append_right r hd)
    · rw [hz, Text.after_append, Text.trim_append_white z hwhite]
  simp only [clause, hs.read hfits, bind, Except.bind, pure, Except.pure, hslice]

/-- Such a range reads the same whatever the white space is. -/
theorem Source.clause_exchanged_white {a b b' c : Source} (hs : (a ++ b ++ c).Sound)
    (hs' : (a ++ b' ++ c).Sound) (ha : a.Even) (hb : b.Even) (hb' : b'.Even)
    (hwhite : ∀ d ∈ b.text, isWhite d = true) (hwhite' : ∀ d ∈ b'.text, isWhite d = true)
    {start start' : Nat}
    (hfits : Code.Fits (a ++ b ++ c).masked.cells ⟨start, (a ++ b).masked.size⟩)
    (hfits' : Code.Fits (a ++ b' ++ c).masked.cells ⟨start', (a ++ b').masked.size⟩)
    (hstart : start' = start ∨ a.masked.size ≤ start ∧ a.masked.size ≤ start') :
    (a ++ b' ++ c).clause ⟨start', (a ++ b').masked.size⟩ =
      (a ++ b ++ c).clause ⟨start, (a ++ b).masked.size⟩ := by
  rw [clause_before_white hs ha hb hwhite hfits, clause_before_white hs' ha hb' hwhite' hfits']
  have heven : a.text.size = a.masked.size := ha
  rcases hstart with rfl | ⟨hbehind, hbehind'⟩
  · rfl
  · rw [Text.after_of_size_le (heven ▸ hbehind'), Text.after_of_size_le (heven ▸ hbehind)]

namespace Code

variable {a b b' c : Code} (hb : ∀ d ∈ b, isLayoutBlank d = true)
  (hb' : ∀ d ∈ b', isLayoutBlank d = true) (hbrace : c.head? = some '{')
include hb hb' hbrace

/-- Blanks before an opening brace may stand for one another. -/
theorem swappable_opening : Swappable a b b' c a.length := by
  obtain ⟨rest, rfl⟩ := List.head?_eq_some_iff.mp hbrace
  have hpassed : ∀ {l : Code}, (∀ d ∈ l, isLayoutBlank d = true) → Passed a a.length l := fun hl =>
    passed_of_stackAfter (stackAfter_of_isInert (fun d hd => isInert_of_isLayoutBlank (hl d hd)) [])
      a a.length
  have hapart : ∀ l : Code, Apart l ('{' :: rest) := fun l => apart_of_head hbrace (by decide)
  refine ⟨hpassed hb, hpassed hb', (Mute.of_blanks hb).silent _ _, (Mute.of_blanks hb').silent _ _,
    hapart b, hapart b', .inr ⟨rfl, fun l hl => ⟨l, '{', rest, rfl, ?_, by decide⟩⟩⟩
  rcases hl with rfl | rfl
  · exact hb
  · exact hb'

/-- The members of the body behind the brace move with it. -/
theorem memberRanges_behind {stop : Nat} (hpos : 0 < stop) (hstop : stop ≤ c.length) :
    List.Forall₂ (Range.Moved a b b')
      ((a ++ b ++ c).memberRanges ((a ++ b).length + 1) ((a ++ b).length + stop))
      ((a ++ b' ++ c).memberRanges ((a ++ b').length + 1) ((a ++ b').length + stop)) := by
  obtain ⟨rest, rfl⟩ := List.head?_eq_some_iff.mp hbrace
  have hinert : ∀ {l : Code}, (∀ d ∈ l, isLayoutBlank d = true) → stackAfter [] l = some [] :=
    fun hl => stackAfter_of_isInert (fun d hd => isInert_of_isLayoutBlank (hl d hd)) []
  have hunassigned : Unassigned ('{' :: rest) := by
    intro e he
    rw [List.dropWhile_cons_of_neg (by decide)] at he
    rw [← Option.some.inj he]
    decide
  have halike : Alike b b' ('{' :: rest) := ⟨hinert hb, hinert hb', hunassigned,
    (unassigned_blanks hb).append hunassigned, (unassigned_blanks hb').append hunassigned⟩
  have hwindow : ∀ l : Code, (a ++ l ++ '{' :: rest).window ((a ++ l).length + 1)
      ((a ++ l).length + stop) = Code.window ('{' :: rest) 1 stop := by
    intro l
    rw [window, window, ← List.drop_drop, List.drop_left, Nat.add_sub_add_left]
  refine memberRanges_moved_of_ranges ?_
  rw [Segment.ranges, Segment.ranges, hwindow, hwindow]
  exact Segment.rangesFrom_behind halike hpos hstop rfl .none

end Code

namespace SourceFile

/-- With its opening brace on a line of its own, a class is read as before, and so is the file. -/
theorem Declares.reheaded {text : Text} {number i closing : Nat} {node : ClassNode} {u b w : Source}
    (hdeclares : Declares text number i (u ++ b).masked.size closing node)
    (h : Source.HeaderGap text u b w) {b' : Text} (hb' : ∀ c ∈ b', isLayoutBlank c = true)
    (hline : '\n' ∈ b') :
    ∃ opening closing, Declares (u.text ++ b' ++ w.text) number i opening closing node := by
  obtain ⟨file, d, hfile, hlength, hd, hopening, rfl, rfl⟩ := hdeclares
  obtain ⟨z, rfl, hz, hblanks, hsource'⟩ := h.exists_ofText hb' hline
  obtain ⟨hu, hb, hw⟩ := h.even
  obtain ⟨hlayout, hnode⟩ := layout_of_mem_classes hfile (List.mem_of_getElem? hd)
  obtain ⟨-, -, hends, -⟩ := Code.classLayouts_parts hlayout
  obtain ⟨hlaid, hreadable⟩ := Code.classLayouts_spec hlayout
  have hbody : (Source.ofText text).Body d.layout d.node.members :=
    ClassLayout.body_of_read (s := Source.ofText text) hlayout hnode
  have hfits : Code.Fits (Source.ofText text).masked.cells d.layout.tail := hreadable.tail
  have hinside := (List.getElem?_eq_some_iff.mp hlaid.closes).1
  change _ < (Source.ofText text).masked.cells.length at hinside
  have hordered := hlaid.ordered
  have hsound := Source.sound_ofText text
  have hsound' := Source.sound_ofText (u.text ++ z.text ++ w.text)
  rw [h.eq] at hbody hfits hinside hsound
  rw [hsource'] at hsound'
  have hswap : Source.Swap u b z w := ⟨⟨hu, hb, hz, hw⟩, hsound⟩
  have hsize : ∀ y : Source, (u ++ y).masked.size = (u.masked.cells ++ y.masked.cells).length :=
    fun y => by simp
  obtain ⟨q, hclosing⟩ : ∃ q, d.layout.closing = (u ++ b).masked.size + q :=
    ⟨d.layout.closing - (u ++ b).masked.size, by omega⟩
  have hstop : q ≤ w.masked.cells.length := by
    rw [hclosing, Source.cells_masked, List.length_append, ← hsize] at hinside
    omega
  have hmoved := Code.memberRanges_behind (a := u.masked.cells) h.blanks hblanks h.brace
    (show 0 < q by omega) hstop
  rw [← hsize, ← hsize, ← Source.cells_masked, ← Source.cells_masked] at hmoved
  rw [← hclosing, ← hopening] at hmoved
  have haway : ∀ r ∈ Code.memberRanges (u ++ b ++ w).masked.cells (d.layout.opening + 1)
      d.layout.closing, r.stop ≤ u.masked.size ∨ (u ++ b).masked.size ≤ r.start := by
    intro r hr
    have := (hbody.laid.within r hr).1
    omega
  have hbraces : Code.Moved u.masked.cells b.masked.cells z.masked.cells d.layout.opening
      (u ++ z).masked.size := by
    refine .inr ⟨0, ?_, ?_⟩
    · rw [hopening, hsize, Nat.add_zero]
    · rw [hsize, Nat.add_zero]
  have htail : ∀ start, Code.Fits (u ++ z ++ w).masked.cells ⟨start, (u ++ z).masked.size⟩ →
      (start = d.layout.tail.start ∨ u.masked.size ≤ d.layout.tail.start ∧ u.masked.size ≤ start) →
      ∀ o, (u ++ b ++ w).clause d.layout.tail = .ok o →
        (u ++ z ++ w).clause ⟨start, (u ++ z).masked.size⟩ = .ok o := by
    intro start hfits' hstart o ho
    have hstop : d.layout.tail = ⟨d.layout.tail.start, (u ++ b).masked.size⟩ := by
      rw [← hopening, ← hends]
    rw [hstop] at hfits ho
    rw [Source.clause_exchanged_white hsound hsound' hu hb hz h.white
      (fun c hc => isWhite_of_isLayoutBlank (hb' c hc)) hfits hfits' hstart, ho]
  obtain ⟨file', d', hfile', hlength', hd', hopening', hclosing', hnode'⟩ := exists_reread h.eq
    hsource' hswap (Code.swappable_opening h.blanks hblanks h.brace) hfile hd hbraces
    (Nat.le_of_eq hopening) hclosing htail
    fun hsealed => hswap.members_kept hbody hmoved hsealed haway
  exact ⟨_, _, file', d', hfile', hlength'.trans hlength, hd', hopening', hclosing', hnode'⟩

end SourceFile

end ClassRefactor
