import ClassRefactor.Proofs.Growth.Body
import ClassRefactor.Proofs.Growth.Insertion

/-!
# Other blanks in a gap

Where something has ended, the blanks before what follows may be exchanged for others. So a piece of
a class body may be moved to a line of its own. A directive alone would be read in another way
there, so the code of the piece must not begin with its mark.
-/

namespace ClassRefactor

theorem Code.not_white_of_isEnd {c : Char} (h : Code.isEnd c = true) : isWhite c = false := by
  simp only [Code.isEnd, Bool.or_eq_true, beq_iff_eq] at h
  rcases h with (((rfl | rfl) | rfl) | rfl) | rfl <;> decide

open Place in
/-- In code a cell that ends something is code, whatever stands around it. -/
theorem Scan.InCode.next_end {s : Scan} (h : s.InCode) {c : Char} (hc : Code.isEnd c = true)
    (rest : Text) : s.next c rest = ⟨.code false, 0, .code⟩ := by
  obtain ⟨place, held, mode⟩ := s
  obtain ⟨rfl, fresh, rfl⟩ := h
  simp only [Code.isEnd, Bool.or_eq_true, beq_iff_eq] at hc
  rcases hc with (((rfl | rfl) | rfl) | rfl) | rfl <;>
    simp [Scan.next, step, stepCode, verbatimMark_cons, opensString_cons, isLayoutBlank]

/-- In code a blank is code, whatever stands behind it. -/
theorem Scan.next_blank (fresh : Bool) (mode : Mode) {c : Char} (hc : isLayoutBlank c = true)
    (rest : Text) :
    Scan.next ⟨.code fresh, 0, mode⟩ c rest = ⟨.code (c == '\n' || fresh), 0, .code⟩ := by
  simp only [Scan.next, Place.step, stepCode_blank hc]

namespace Scan

/-- Two scans that differ only in whether the line has just begun. -/
structure Refreshed (s s' : Scan) : Prop where
  held : s'.held = s.held
  mode : s'.mode = s.mode
  comment : s.held ≠ 0 → s.mode = .comment
  place : s.place = .code false ∧ s'.place = .code true ∨
    s.place = .blockComment false ∧ s'.place = .blockComment true

/-- A comment shows as blanks. -/
theorem blanks_maskOne_comment (c : Char) :
    ∀ e ∈ Text.cells (Text.maskOne c .comment), isLayoutBlank e = true := by
  intro e he
  rw [Text.cells_maskOne] at he
  rw [List.eq_of_mem_replicate he, Text.maskCell]
  split
  · rename_i hline
    rw [beq_iff_eq.mp hline]
    rfl
  · rfl

open Place in
/-- The difference is kept by blanks and block comments, and ends with anything else but the mark of
a directive. -/
theorem Refreshed.next {s s' : Scan} (h : s.Refreshed s') (c : Char) (rest : Text) :
    s.next c rest = s'.next c rest ∨
      ((s.next c rest).Refreshed (s'.next c rest) ∧
        ∀ e ∈ Text.cells (Text.maskOne c (s.next c rest).mode), isLayoutBlank e = true) ∨
      c = '#' ∧ (s.next c rest).mode = .code := by
  obtain ⟨place, held, mode⟩ := s
  obtain ⟨place', held', mode'⟩ := s'
  obtain ⟨hheld, hmode, hcomment, hplace⟩ := h
  dsimp only at *
  subst held' mode'
  cases held with
  | succ held =>
    obtain rfl := hcomment (Nat.succ_ne_zero held)
    exact .inr (.inl ⟨⟨rfl, rfl, fun _ => rfl, hplace⟩, blanks_maskOne_comment c⟩)
  | zero =>
    rcases hplace with ⟨rfl, rfl⟩ | ⟨rfl, rfl⟩
    · cases hblank : isLayoutBlank c with
      | true =>
        rw [next_blank _ _ hblank, next_blank _ _ hblank]
        cases hline : c == '\n' with
        | true => exact .inl rfl
        | false =>
          refine .inr (.inl ⟨⟨rfl, rfl, fun hne => absurd rfl hne, .inl ⟨rfl, rfl⟩⟩, ?_⟩)
          intro e he
          rw [Text.cells_maskOne] at he
          rw [List.eq_of_mem_replicate he]
          exact hblank
      | false =>
        by_cases hmark : c = '#'
        · subst hmark
          refine .inr (.inr ⟨rfl, ?_⟩)
          simp [Scan.next, step, stepCode, verbatimMark_cons, opensString_cons]
        · by_cases hblock : c = '/' ∧ rest.head? = some '*'
          · obtain ⟨rfl, hstar⟩ := hblock
            have hstep : ∀ fresh, stepCode fresh '/' rest = (.comment, 1, .blockComment fresh) := by
              intro fresh
              simp [stepCode, hstar]
            simp only [Scan.next, step, hstep]
            exact .inr (.inl ⟨⟨rfl, rfl, fun _ => rfl, .inr ⟨rfl, rfl⟩⟩, blanks_maskOne_comment _⟩)
          · have hstep : stepCode false c rest = stepCode true c rest := by
              simp [stepCode, hmark, hblock, hblank]
            left
            simp only [Scan.next, step, hstep]
    · right
      left
      by_cases hends : c = '*' ∧ rest.head? = some '/'
      · have hstep : ∀ fresh, step (.blockComment fresh) c rest = (.comment, 1, .code fresh) := by
          intro fresh
          simp [step, hends]
        simp only [Scan.next, hstep]
        exact ⟨⟨rfl, rfl, fun _ => rfl, .inl ⟨rfl, rfl⟩⟩, blanks_maskOne_comment c⟩
      · have hstep : ∀ fresh,
            step (.blockComment fresh) c rest = (.comment, 0, .blockComment fresh) := by
          intro fresh
          simp [step, hends]
        simp only [Scan.next, hstep]
        exact ⟨⟨rfl, rfl, fun hne => absurd rfl hne, .inr ⟨rfl, rfl⟩⟩, blanks_maskOne_comment c⟩

/-- Text whose code begins with no mark of a directive is read alike on a new line. -/
theorem Refreshed.mask_eq {s s' : Scan} (h : s.Refreshed s') {t : Text}
    (ht : ((Text.cells (s.mask t [])).dropWhile isLayoutBlank).head? ≠ some '#') :
    s.mask t [] = s'.mask t [] := by
  induction t generalizing s s' with
  | nil => rfl
  | cons c t ih =>
    rw [mask, List.append_nil, Text.cells_append] at ht
    rw [mask, mask, List.append_nil]
    rcases h.next c t with heq | ⟨hnext, hblanks⟩ | ⟨rfl, hmode⟩
    · rw [heq]
    · rw [List.dropWhile_append_of_pos hblanks] at ht
      rw [hnext.mode, ih hnext ht]
    · rw [hmode] at ht
      exact absurd rfl ht

theorem after_line_of_blanks {b : Text} (hb : ∀ c ∈ b, isLayoutBlank c = true) (fresh : Bool)
    (rest : Text) : (Scan.mk (.code fresh) 0 .code).after b rest =
      ⟨.code (b.contains '\n' || fresh), 0, .code⟩ := by
  induction b generalizing fresh with
  | nil => rfl
  | cons c b ih =>
    have hline : ((c :: b).contains '\n' || fresh) = (b.contains '\n' || (c == '\n' || fresh)) := by
      rw [List.contains_cons, Bool.or_assoc, Bool.or_left_comm]
      rw [BEq.comm]
    rw [after, next_blank fresh .code (hb c List.mem_cons_self),
      ih fun d hd => hb d (List.mem_cons_of_mem _ hd), hline]

/-- Behind a cell that ends something a scan is in code, whatever follows. -/
theorem after_end {init : Text} {c : Char} (hc : Code.isEnd c = true) {rest : Text}
    (hmode : (start.after (init ++ [c]) rest).mode = .code) (rest' : Text) :
    start.after (init ++ [c]) rest' = ⟨.code false, 0, .code⟩ ∧
      start.mask (init ++ [c]) rest' = start.mask (init ++ [c]) rest := by
  have hcalm : ∀ r, Calm ([c] ++ r) := by
    intro r
    simp only [Code.isEnd, Bool.or_eq_true, beq_iff_eq] at hc
    rcases hc with (((rfl | rfl) | rfl) | rfl) | rfl <;>
      exact ⟨⟨by simp, by simp, by simp⟩, by simp, by simp⟩
  have hsame := (modes_calm (hcalm rest') (hcalm rest) start init).2
  rw [after_append] at hmode
  have hcode : (start.after init ([c] ++ rest)).InCode :=
    (sane_start.after init _).inCode hmode
  rw [after_append, mask_append, mask_append, mask_calm (hcalm rest') (hcalm rest), hsame]
  refine ⟨hcode.next_end hc rest', ?_⟩
  simp only [mask, List.nil_append, hcode.next_end hc]

end Scan

namespace Source

/-- Behind what ends something a scan is in code, whatever follows. -/
theorem after_of_ends {text : Text} {u w : Source} (h : ofText text = u ++ w) (hu : u.Even)
    (hends : ∃ e, u.masked.cells.getLast? = some e ∧ Code.isEnd e = true) (rest : Text) :
    Scan.start.after u.text rest = ⟨.code false, 0, .code⟩ ∧
      Scan.start.mask u.text rest = u.masked := by
  obtain ⟨hfront, -⟩ := mask_of_parts h hu
  obtain ⟨e, he, hend⟩ := hends
  rw [← hfront] at he ⊢
  rcases List.eq_nil_or_concat u.text with hnil | ⟨init, c, hconcat⟩
  · rw [hnil] at he
    cases he
  · rw [hconcat, List.concat_eq_append] at he ⊢
    rw [Scan.getLast?_mask, Option.some.injEq] at he
    have hquote : e ≠ '"' := by
      rintro rfl
      cases hend
    obtain ⟨hmode, rfl⟩ := code_of_maskCell he (Code.not_of_isEnd hend).1 hquote
    exact Scan.after_end hend hmode rest

/-- Other blanks behind what ends something are their own mask, and leave the mask around them as it
is. -/
theorem ofText_respaced {text : Text} {u w : Source} {b b' : Text}
    (h : ofText text = u ++ plain b ++ w) (hu : u.Even)
    (hends : ∃ e, u.masked.cells.getLast? = some e ∧ Code.isEnd e = true)
    (hb : ∀ c ∈ b, isLayoutBlank c = true) (hb' : ∀ c ∈ b', isLayoutBlank c = true)
    (hline : '\n' ∉ b) (hfirst : (w.masked.cells.dropWhile isLayoutBlank).head? ≠ some '#') :
    ofText (u.text ++ b' ++ w.text) = u ++ plain b' ++ w := by
  rw [append_assoc] at h
  obtain ⟨-, hback⟩ := mask_of_parts h hu
  obtain ⟨hafter, -⟩ := after_of_ends h hu hends (plain b ++ w).text
  obtain ⟨hafter', hmask'⟩ := after_of_ends h hu hends (b' ++ w.text)
  have hcode : ∀ fresh, (Scan.mk (.code fresh) 0 .code).InCode := fun fresh => ⟨rfl, fresh, rfl⟩
  have hwhite : ∀ {l : Text}, (∀ d ∈ l, isLayoutBlank d = true) →
      ∀ d ∈ l, isWhite d = true ∨ d = ',' :=
    fun hl d hd => .inl (isWhite_of_isLayoutBlank (hl d hd))
  have hline' : b.contains '\n' = false := by simpa using hline
  change (Scan.start.after u.text (plain b ++ w).text).mask (b ++ w.text) [] = b ++ w.masked
    at hback
  rw [hafter, Scan.mask_append, List.append_nil, (hcode false).mask_separator (hwhite hb),
    List.append_cancel_left_eq, Scan.after_line_of_blanks hb, Bool.or_false, hline'] at hback
  -- Behind the gap, only the mark of a directive would be read in another way.
  have hrest : ∀ fresh, (Scan.mk (.code fresh) 0 .code).mask w.text [] = w.masked := by
    intro fresh
    cases fresh with
    | false => exact hback
    | true =>
      have hrefreshed : (Scan.mk (.code false) 0 .code).Refreshed ⟨.code true, 0, .code⟩ :=
        ⟨rfl, rfl, fun hne => absurd rfl hne, .inl ⟨rfl, rfl⟩⟩
      rw [← hback] at hfirst ⊢
      exact (hrefreshed.mask_eq hfirst).symm
  show Source.mk _ _ = Source.mk _ _
  rw [Text.mask_parts, hafter', hmask', (hcode false).mask_separator (hwhite hb'),
    Scan.after_line_of_blanks hb', hrest, ← List.append_assoc]
  rfl

end Source

namespace Code

/-- A cell that may begin a line of a class body: white space would be trimmed away, a `#` would begin
a directive, and a `=` would initialize a property. -/
def beginsLine (c : Char) : Bool := !isWhite c && c != '#' && c != '='

/-- Code whose first cell that is no blank may begin a line. -/
def Lined (code : Code) : Prop :=
  ∀ c ∈ (code.dropWhile isLayoutBlank).head?, beginsLine c = true

instance (code : Code) : Decidable code.Lined :=
  decidable_of_iff ((code.dropWhile isLayoutBlank).head?.all beginsLine = true)
    (Option.all_eq_true beginsLine _)

section

variable {l r : Code}

theorem head?_dropWhile_append (p : Char → Bool) : ((l ++ r).dropWhile p).head? =
    (l.dropWhile p).head?.or (r.dropWhile p).head? := by
  rw [List.dropWhile_append]
  cases l.dropWhile p with
  | nil => rfl
  | cons c rest => rfl

theorem Lined.append (hl : l.Lined) (hr : r.Lined) : Lined (l ++ r) := by
  intro c hc
  rw [head?_dropWhile_append, Option.mem_def, Option.or_eq_some_iff] at hc
  rcases hc with hc | ⟨-, hc⟩
  · exact hl c hc
  · exact hr c hc

theorem Lined.left (h : Lined (l ++ r)) : l.Lined := by
  intro c hc
  refine h c ?_
  rw [head?_dropWhile_append, Option.mem_def.mp hc]
  rfl

theorem lined_blanks (hl : ∀ c ∈ l, isLayoutBlank c = true) : l.Lined := by
  intro c hc
  rw [List.dropWhile_eq_nil_iff.mpr hl] at hc
  cases hc

/-- Blanks in front do not matter. -/
theorem Lined.behind_blanks (h : Lined (l ++ r)) (hl : ∀ c ∈ l, isLayoutBlank c = true) :
    r.Lined := by
  rwa [Lined, List.dropWhile_append_of_pos hl] at h

theorem Lined.undirected (h : l.Lined) : (l.dropWhile isLayoutBlank).head? ≠ some '#' :=
  fun heq => absurd (h '#' heq) (by decide)

theorem Lined.unassigned (h : l.Lined) : l.Unassigned := by
  rintro c hc rfl
  exact absurd (h '=' hc) (by decide)

end

end Code

namespace Code

variable {a b b' c : Code} (hb : ∀ d ∈ b, isLayoutBlank d = true)
  (hb' : ∀ d ∈ b', isLayoutBlank d = true)
include hb hb'

/-- Blanks may stand for one another behind what ends something. -/
theorem swappable_blanks {n : Nat} (ha : a.EndsAt n) : Swappable a b b' c n := by
  have hpassed : ∀ {l : Code}, (∀ d ∈ l, isLayoutBlank d = true) → Passed a n l := fun hl =>
    passed_of_stackAfter (stackAfter_of_isInert (fun d hd => isInert_of_isLayoutBlank (hl d hd)) [])
      a n
  have hapart : ∀ {l : Code}, (∀ d ∈ l, isLayoutBlank d = true) → Apart l c := fun hl =>
    .inl fun d hd => Segment.isIdentCell_of_isLayoutBlank (hl d (List.mem_of_getLast? hd))
  exact ⟨hpassed hb, hpassed hb', (Mute.of_blanks hb).silent _ _, (Mute.of_blanks hb').silent _ _,
    hapart hb, hapart hb', .inl ha⟩

/-- Where no member is open, the members lie before the blanks or behind them, and correspond one by
one when these are exchanged. -/
theorem memberRanges_respaced (hc : Unassigned c) {start stop : Nat} (hstart : start ≤ a.length)
    (hcut : (a.memberCut start).2 = {}) (hpos : 0 < stop) (hstop : stop ≤ c.length) :
    List.Forall₂ (Range.Moved a b b') ((a ++ b ++ c).memberRanges start ((a ++ b).length + stop))
        ((a ++ b' ++ c).memberRanges start ((a ++ b').length + stop)) ∧
      ∀ r ∈ (a ++ b ++ c).memberRanges start ((a ++ b).length + stop),
        r.stop ≤ a.length ∨ (a ++ b).length ≤ r.start := by
  have hunassigned : ∀ {l : Code}, (∀ d ∈ l, isLayoutBlank d = true) → Unassigned (l ++ c) :=
    fun hl => (unassigned_blanks hl).append hc
  have hinert : ∀ {l : Code}, (∀ d ∈ l, isLayoutBlank d = true) → stackAfter [] l = some [] :=
    fun hl => stackAfter_of_isInert (fun d hd => isInert_of_isLayoutBlank (hl d hd)) []
  have halike : Alike b b' c := ⟨hinert hb, hinert hb', hc, hunassigned hb, hunassigned hb'⟩
  have hranges : ∀ {l : Code}, (∀ d ∈ l, isLayoutBlank d = true) →
      Segment.ranges (a ++ l ++ c) (a ++ l ++ c).afterMemberBlock start ((a ++ l).length + stop) =
        (a.memberCut start).1 ++ Segment.rangesFrom (a ++ l ++ c) (a ++ l ++ c).afterMemberBlock
          ((a ++ l).length + stop) {} ((a ++ l).length + 0) (c.window 0 stop) := by
    intro l hl
    rw [ranges_between (hunassigned hl) hstart, hcut, Segment.rangesFrom_blanks hl,
      ← List.length_append]
    rfl
  refine ⟨memberRanges_moved_of_ranges ?_, fun r hr => ?_⟩
  · rw [hranges hb, hranges hb']
    exact List.rel_append (moved_memberCut hstart)
      (Segment.rangesFrom_behind halike hpos hstop rfl .none)
  · have hmem := (List.mem_filter.mp hr).1
    rw [hranges hb, List.mem_append] at hmem
    rcases hmem with hmem | hmem
    · exact .inl (within_memberCut hstart r hmem).2.1
    · exact .inr (Segment.within_rangesFrom (Nat.le_refl _)
        (by rw [length_window]; omega) (by simp) r hmem).1

end Code

namespace Source

/-- The members of a class are read as before where the exchanged part lies between them. -/
theorem Swap.members_kept {a b b' c : Source} (h : Swap a b b' c) {l : ClassLayout}
    {members : List Member} (hbody : (a ++ b ++ c).Body l members) {rs' : List Range}
    (hmoved : List.Forall₂ (Range.Moved a.masked.cells b.masked.cells b'.masked.cells)
      (Code.memberRanges (a ++ b ++ c).masked.cells (l.opening + 1) l.closing) rs')
    (hsealed' : ∀ r ∈ rs', Code.Sealed (a ++ b' ++ c).masked.cells r.stop)
    (haway : ∀ r ∈ Code.memberRanges (a ++ b ++ c).masked.cells (l.opening + 1) l.closing,
      r.stop ≤ a.masked.size ∨ (a ++ b).masked.size ≤ r.start) :
    List.Forall₂ (fun r v => (a ++ b' ++ c).memberAt
        (Code.window (a ++ b ++ c).masked.cells l.name.start l.name.stop) r = .ok v) rs' members := by
  obtain ⟨hlaid, hfits, hsealed, hread⟩ := hbody
  generalize Code.memberRanges (a ++ b ++ c).masked.cells (l.opening + 1) l.closing = rs at *
  rw [List.forall₂_iff_get] at hmoved hread ⊢
  obtain ⟨hlen, hmoved⟩ := hmoved
  obtain ⟨hlenRead, hread⟩ := hread
  refine ⟨hlen.symm.trans hlenRead, fun j hj hj' => ?_⟩
  have hjold : j < rs.length := hlen ▸ hj
  have hmem := List.getElem_mem hjold
  obtain ⟨v, hv, hv'⟩ := h.exists_member (hmoved j hjold hj) (hlaid.within _ hmem).2.1
    (hfits _ hmem) (hsealed _ hmem) (hsealed' _ (List.getElem_mem hj)) (haway _ hmem)
    (Code.window (a ++ b ++ c).masked.cells l.name.start l.name.stop)
  exact hv'.trans (hv.symm.trans (hread j hjold hj'))

/-- Blanks behind what ends something, and others to put in their place. What follows may begin a
line. -/
structure Respacing (u : Source) (b b' : Text) (w : Source) : Prop where
  even : u.Even ∧ w.Even
  ends : ∃ e, u.masked.cells.getLast? = some e ∧ Code.isEnd e = true
  line : '\n' ∉ b
  old : ∀ c ∈ b, isLayoutBlank c = true
  new : ∀ c ∈ b', isLayoutBlank c = true
  lined : Code.Lined w.masked.cells

/-- A piece of a class body behind what ends something, and what follows it: the piece stands on one
line, and may begin a line of its own. -/
structure Piece (u v r : Source) : Prop where
  even : u.Even ∧ v.Even ∧ r.Even
  ends : ∃ e, u.masked.cells.getLast? = some e ∧ Code.isEnd e = true
  line : '\n' ∉ v.text
  lined : Code.Lined (v ++ r).masked.cells

/-- The white space in front of a piece is made of blanks. -/
theorem Piece.exists_front {text : Text} {u v r : Source} (h : Piece u v r)
    (hsource : ofText text = u ++ (v ++ r)) :
    ∃ g z, v = plain g ++ z ∧ z.Even ∧ z.text = v.text.trimStart ∧
      (∀ c ∈ g, isLayoutBlank c = true) ∧ '\n' ∉ g := by
  obtain ⟨hu, hv, -⟩ := h.even
  obtain ⟨-, hback⟩ := mask_of_parts hsource hu
  rw [(after_of_ends hsource hu h.ends _).1] at hback
  have hsplit := List.takeWhile_append_dropWhile (p := isWhite) (l := v.text)
  have hwhite : ∀ c ∈ v.text.takeWhile isWhite, isWhite c = true := fun c hc =>
    List.mem_takeWhile_imp hc
  have hline : '\n' ∉ v.text.takeWhile isWhite := fun hmem =>
    h.line (List.takeWhile_subset _ hmem)
  rw [Text.trimStart]
  generalize v.text.takeWhile isWhite = g at *
  generalize v.text.dropWhile isWhite = rest at *
  have hmask : v.masked ++ r.masked =
      g ++ ((Scan.mk (.code false) 0 .code).after g (rest ++ r.text)).mask (rest ++ r.text) [] := by
    have hcode : (Scan.mk (.code false) 0 .code).InCode := ⟨rfl, false, rfl⟩
    rw [← masked_append, ← hback, text_append, ← hsplit, List.append_assoc, Scan.mask_append,
      List.append_nil, hcode.mask_separator fun c hc => .inl (hwhite c hc)]
  have hle : Text.size g ≤ v.masked.size := by
    have heven : v.text.size = v.masked.size := hv
    rw [← heven, ← hsplit, Text.size_append]
    exact Nat.le_add_right ..
  obtain ⟨m, hm, -⟩ := Text.exists_between hmask.symm hle
  have hparts : v = plain g ++ ⟨rest, m⟩ := by
    obtain ⟨vtext, vmasked⟩ := v
    exact congrArg₂ Source.mk hsplit.symm hm
  refine ⟨g, ⟨rest, m⟩, hparts, (hparts ▸ hv).of_append (even_plain g), rfl, ?_, hline⟩
  -- The first cell that is no blank is not white.
  have hlined := h.lined
  rw [hparts, append_assoc, masked_append, Text.cells_append] at hlined
  intro c hc
  by_contra hsolid
  obtain ⟨e, tail, heq⟩ := List.exists_cons_of_ne_nil fun hnil =>
    hsolid (List.dropWhile_eq_nil_iff.mp hnil c (Text.mem_cells.mpr hc))
  have hmem : e ∈ g := Text.mem_cells.mp
    ((List.dropWhile_suffix _).subset (heq ▸ List.mem_cons_self))
  have hbegins := hlined.left e (by
    show (List.dropWhile isLayoutBlank (Text.cells g)).head? = some e
    rw [heq]
    rfl)
  simp [Code.beginsLine, hwhite e hmem] at hbegins

end Source

namespace SourceFile

/-- A text declares a number of classes, and the `i`-th has its braces at the given places and reads
as the given tree. -/
def Declares (text : Text) (number i opening closing : Nat) (node : ClassNode) : Prop :=
  ∃ file d, parse text = .ok file ∧ file.classes.length = number ∧ file.classes[i]? = some d ∧
    d.layout.opening = opening ∧ d.layout.closing = closing ∧ d.node = node

variable {text : Text} {number i opening q : Nat} {node : ClassNode} {u : Source} {b' : Text}

/-- Between the members of a class, blanks may be exchanged for others: the file is read as before. -/
theorem Declares.respaced {w : Source} {b : Text}
    (h : Declares text number i opening ((u ++ .plain b).masked.size + q) node)
    (hsource : Source.ofText text = u ++ .plain b ++ w) (hgap : u.Respacing b b' w)
    (hopening : opening < u.masked.size) (hpos : 0 < q)
    (hcut : (Code.memberCut u.masked.cells (opening + 1)).2 = {}) :
    Declares (u.text ++ b' ++ w.text) number i opening ((u ++ .plain b').masked.size + q) node ∧
      Source.ofText (u.text ++ b' ++ w.text) = u ++ .plain b' ++ w := by
  obtain ⟨file, d, hfile, hlength, hd, rfl, hclosing, rfl⟩ := h
  have hsource' := Source.ofText_respaced hsource hgap.even.1 hgap.ends hgap.old hgap.new hgap.line
    hgap.lined.undirected
  obtain ⟨hlayout, hnode⟩ := layout_of_mem_classes hfile (List.mem_of_getElem? hd)
  have hbody : (Source.ofText text).Body d.layout d.node.members :=
    ClassLayout.body_of_read (s := Source.ofText text) hlayout hnode
  have hinside := (List.getElem?_eq_some_iff.mp (Code.classLayouts_spec hlayout).1.closes).1
  change _ < (Source.ofText text).masked.cells.length at hinside
  have hsound := Source.sound_ofText text
  rw [hsource] at hbody hinside hsound
  have hswap : Source.Swap u (.plain b) (.plain b') w :=
    ⟨⟨hgap.even.1, Source.even_plain b, Source.even_plain b', hgap.even.2⟩, hsound⟩
  have hends : Code.EndsAt u.masked.cells (u.masked.cells.length - 1) := by
    obtain ⟨e, he, hend⟩ := hgap.ends
    rw [List.getLast?_eq_getElem?] at he
    have hlt := (List.getElem?_eq_some_iff.mp he).1
    refine ⟨⟨e, he, hend⟩, fun c hc => ?_⟩
    rw [List.drop_eq_nil_of_le (by omega)] at hc
    cases hc
  have hold : ∀ c ∈ (Source.plain b).masked.cells, isLayoutBlank c = true := fun c hc =>
    hgap.old c (Text.mem_cells.mp hc)
  have hnew : ∀ c ∈ (Source.plain b').masked.cells, isLayoutBlank c = true := fun c hc =>
    hgap.new c (Text.mem_cells.mp hc)
  have hsize : ∀ z : Source, (u ++ z).masked.size = (u.masked.cells ++ z.masked.cells).length :=
    fun z => by simp
  have hstop : q ≤ w.masked.cells.length := by
    rw [hclosing, Source.cells_masked, List.length_append, ← hsize] at hinside
    omega
  obtain ⟨hmoved, haway⟩ := Code.memberRanges_respaced hold hnew hgap.lined.unassigned
    (by rwa [Text.length_cells]) hcut hpos hstop
  rw [← hsize, ← hsize, ← Source.cells_masked, ← Source.cells_masked] at hmoved
  rw [← hsize, ← Source.cells_masked, Text.length_cells] at haway
  rw [← hclosing] at hmoved haway
  obtain ⟨file', d', hfile', hlength', hd', hopening', hclosing', hnode'⟩ := exists_swapped hsource
    hsource' hswap (Code.swappable_blanks hold hnew hends) hfile hd hopening hclosing
    fun hsealed => hswap.members_kept hbody hmoved hsealed haway
  exact ⟨⟨file', d', hfile', hlength'.trans hlength, hd', hopening', hclosing', hnode'⟩, hsource'⟩

/-- A piece of a class body may be moved to a line of its own: the file is read as before. -/
theorem Declares.lined {v r : Source}
    (h : Declares text number i opening ((u ++ v).masked.size + q) node)
    (hsource : Source.ofText text = u ++ (v ++ r)) (hpiece : u.Piece v r)
    (hopening : opening < u.masked.size) (hpos : 0 < q)
    (hcut : (Code.memberCut u.masked.cells (opening + 1)).2 = {})
    (hb' : ∀ c ∈ b', isLayoutBlank c = true) :
    ∃ z : Source, z.text = v.text.trimStart ∧ z.Even ∧ Code.Lined (z ++ r).masked.cells ∧
      Declares (u.text ++ b' ++ z.text ++ r.text) number i opening
        ((u ++ (.plain b' ++ z)).masked.size + q) node ∧
      Source.ofText (u.text ++ b' ++ z.text ++ r.text) = u ++ (.plain b' ++ z) ++ r := by
  obtain ⟨g, z, rfl, hz, htrim, hg, hline⟩ := hpiece.exists_front hsource
  obtain ⟨hu, -, hr⟩ := hpiece.even
  have hlined : Code.Lined (z ++ r).masked.cells := by
    have hlined := hpiece.lined
    rw [Source.append_assoc, Source.masked_append, Text.cells_append] at hlined
    exact hlined.behind_blanks fun c hc => hg c (Text.mem_cells.mp hc)
  have hsize : ∀ x : Source, (u ++ (x ++ z)).masked.size + q =
      (u ++ x).masked.size + (z.masked.size + q) := fun x => by
    simp only [Source.masked_append, Text.size_append, Nat.add_assoc]
  rw [hsize] at h
  have hwhole : Source.ofText text = u ++ .plain g ++ (z ++ r) := by
    rw [hsource]
    simp only [Source.append_assoc]
  obtain ⟨hdeclares, hsource'⟩ := h.respaced hwhole
    ⟨⟨hu, hz.append hr⟩, hpiece.ends, hline, hg, hb', hlined⟩ hopening (by omega) hcut
  have htext : u.text ++ b' ++ z.text ++ r.text = u.text ++ b' ++ (z ++ r).text := by simp
  refine ⟨z, htrim, hz, hlined, ?_, ?_⟩
  · rw [htext, hsize]
    exact hdeclares
  · rw [htext, hsource']
    simp only [Source.append_assoc]

end SourceFile

end ClassRefactor
