import ClassRefactor.Proofs.Exchange.Method
import ClassRefactor.Proofs.Growth.Statement

/-!
# Added constructors

A constructor that assigns its parameters is found in the cells of the text that it is written as,
and is read there. Searches pass over it, and a class body is cut around it.
-/

namespace ClassRefactor

open Code (Transparent Mute)

/-- A constructor that is read back from the text that it is written as. -/
structure Constructor.Legible (c : Constructor) : Prop where
  modifiers : ∀ m ∈ c.modifiers, m ∈ memberModifiers
  named : c.name.toList ≠ []
  ident : ∀ d ∈ c.name.toList, isIdentCell d = true
  free : c.name ∉ memberModifiers ++ declarationKeywords
  parameters : ∀ p ∈ c.parameters, p.Legible
  initializer : c.initializer = none
  body : ∃ ss : List Statement, c.body = .block ss ∧ ∀ s ∈ ss, s.Legible

/-! Parameters that nothing in them declares a class. -/

theorem Parameter.Legible.mute {p : Parameter} (h : p.Legible) {b : Code} {d : Char}
    (hb : ∀ c ∈ b, isLayoutBlank c = true) (hblank : isLayoutBlank d = false)
    (hident : isIdentCell d = false) : Mute (Text.cells p.render.toList ++ (b ++ [d])) := by
  have htype : Mute (Text.cells p.type.render.toList ++ [' ']) :=
    .of_undeclared (h.type.typeText.undeclared.split (by decide) Code.undeclared_nil)
  have hname : Mute (Text.cells p.name.toList ++ (b ++ [d])) := .word h.ident_cells hb hblank hident
  have := htype.append (Code.apart_of_last (c := ' ') (by simp) (by decide)) hname
  simpa [h.cells_eq] using this

section

variable {s s' b : Code} (hs : ∀ c ∈ s, isLayoutBlank c = true)
  (hs' : ∀ c ∈ s', isLayoutBlank c = true) (hb : ∀ c ∈ b, isLayoutBlank c = true)
include hs hs' hb

/-- Nothing in a parameter and in those behind it declares a class, up to the parenthesis. -/
theorem Parameter.Legible.mute_added {p : Parameter} {ps : List Parameter}
    (hps : ∀ q ∈ p :: ps, q.Legible) :
    Mute (Text.cells p.render.toList ++ (Code.addedCells s s' ps ++ (b ++ [')']))) := by
  induction ps generalizing p with
  | nil => exact (hps p List.mem_cons_self).mute hb (by decide) (by decide)
  | cons q ps ih =>
    have hrest := (Mute.of_blanks hs').append (.inl fun c hc => ?_)
      (ih fun r hr => hps r (List.mem_cons_of_mem _ hr))
    · have := ((hps p List.mem_cons_self).mute hs (d := ',') (by decide) (by decide)).append
        (Code.apart_of_last (c := ',') (by simp) (by decide)) hrest
      simpa [Code.addedCells] using this
    · exact Segment.isIdentCell_of_isLayoutBlank (hs' c (List.mem_of_getLast? hc))

/-- Nothing in added parameters declares a class, up to the parenthesis. -/
theorem mute_addedCells {ps : List Parameter} (hps : ∀ p ∈ ps, p.Legible) :
    Mute (Code.addedCells s s' ps ++ (b ++ [')'])) := by
  have hident : ∀ {l r : Code} {d : Char}, (∀ c ∈ l, isLayoutBlank c = true) →
      (∀ c ∈ r, isLayoutBlank c = true) → isIdentCell d = false →
      ∀ c ∈ l ++ d :: r, isIdentCell c = false := by
    intro l r d hl hr hd c hc
    rcases List.mem_append.mp hc with hc | hc
    · exact Segment.isIdentCell_of_isLayoutBlank (hl c hc)
    · rcases List.mem_cons.mp hc with rfl | hc
      · exact hd
      · exact Segment.isIdentCell_of_isLayoutBlank (hr c hc)
  cases ps with
  | nil => exact .of_not_ident (hident (r := []) hb (by simp) (by decide))
  | cons p ps =>
    have hcomma := hident (d := ',') hs hs' (by decide)
    have := (Mute.of_not_ident hcomma).append
      (.inl fun c hc => hcomma c (List.mem_of_getLast? hc))
      (Parameter.Legible.mute_added hs hs' hb hps)
    simpa [Code.addedCells] using this

end

theorem mute_renderParameters {ps : List Parameter} (hps : ∀ p ∈ ps, p.Legible) :
    Mute (Text.cells (renderParameters ps).toList ++ [')']) := by
  cases ps with
  | nil => exact .of_not_ident (by decide)
  | cons p ps =>
    rw [cells_renderParameters, List.append_assoc]
    exact Parameter.Legible.mute_added (b := []) (by simp) (by decide) (by simp) hps

theorem quiet_of_printed {t : Text} (h : Printed t) : ∀ c ∈ t, isQuiet c = true := by
  intro c hc
  have := h c hc
  simp only [isPrinted, Bool.and_eq_true] at this
  exact this.2

theorem Parameter.Legible.quiet {p : Parameter} (h : p.Legible) :
    ∀ c ∈ p.render.toList, isQuiet c = true := by
  intro c hc
  rw [← Text.mem_cells, h.cells_eq, List.mem_append, List.mem_cons, Text.mem_cells,
    Text.mem_cells] at hc
  rcases hc with hc | rfl | hc
  · exact isQuiet_of_isTypeCell (h.type.typeText.cells c hc)
  · decide
  · exact isQuiet_of_isIdentCell (h.ident c hc)

theorem quiet_addedCells {s s' : Code} (hs : ∀ c ∈ s, isLayoutBlank c = true)
    (hs' : ∀ c ∈ s', isLayoutBlank c = true) {ps : List Parameter} (hps : ∀ p ∈ ps, p.Legible) :
    ∀ c ∈ Code.addedCells s s' ps, isQuiet c = true := by
  intro c hc
  simp only [Code.addedCells, List.mem_flatMap, List.mem_append, List.mem_cons,
    Text.mem_cells] at hc
  obtain ⟨p, hp, hc | rfl | hc | hc⟩ := hc
  · exact quiet_of_printed (printed_blanks hs) c hc
  · decide
  · exact quiet_of_printed (printed_blanks hs') c hc
  · exact (hps p hp).quiet c hc

theorem quiet_renderParameters {ps : List Parameter} (hps : ∀ p ∈ ps, p.Legible) :
    ∀ c ∈ (renderParameters ps).toList, isQuiet c = true := by
  cases ps with
  | nil => simp [renderParameters, joinWith]
  | cons p ps =>
    intro c hc
    rw [← Text.mem_cells, cells_renderParameters, List.mem_append, Text.mem_cells] at hc
    rcases hc with hc | hc
    · exact (hps p List.mem_cons_self).quiet c hc
    · exact quiet_addedCells (by simp) (by decide)
        (fun q hq => hps q (List.mem_cons_of_mem _ hq)) c hc

/-! Constructors. -/

/-- The text of a constructor behind its indentation. -/
def Constructor.text (style : Style) (c : Constructor) : Text :=
  (renderModifiers c.modifiers).toList ++ renderCallable style c.name c.parameters c.body

theorem Constructor.render_eq {c : Constructor} (h : c.initializer = none) (style : Style) :
    (c.render style).toList = style.indent.toList ++ c.text style := by
  simp [Constructor.render, Constructor.text, renderCallable, h, String.toList_append]

/-- The cells of a callable with a block from its name on. -/
def callableCells (name : String) (ps : List Parameter) (b i : Code) : Code :=
  Text.cells name.toList ++ '(' :: (Text.cells (renderParameters ps).toList ++
    ')' :: (b ++ '{' :: (i ++ ['}'])))

section

variable {style : Style} (hstyle : style.BlanksOnly)
include hstyle

/-- The cells of a callable whose body is a block. -/
theorem cells_renderCallable (name : String) (ps : List Parameter) (ss : List Statement) :
    ∃ b i : Code, Text.cells (renderCallable style name ps (.block ss)) =
        callableCells name ps b i ∧ (∀ c ∈ b, isLayoutBlank c = true) ∧
      Segment.Spaced (ss.map fun s => Text.cells s.render.toList) i := by
  obtain ⟨b, hb, hopen⟩ := hstyle.openBrace hstyle.indent
  refine ⟨b, _, ?_, hb, spaced_cells (Body.Plain.spaced_statements hstyle ss)⟩
  have hbody : ((Body.block ss).render style).toList = b ++ '{' ::
      (((concat (ss.map fun s => style.newline ++ style.nested ++ s.render)).toList ++
        (style.newline ++ style.indent).toList) ++ ['}']) := by
    simp [Body.render, String.toList_append, hopen]
  have hascii : ∀ (c : Char) (t : Text), c.utf8Size = 1 → Text.cells (c :: t) = c :: t.cells := by
    intro c t hc
    simp [hc]
  have hend : Text.cells ['}'] = ['}'] := by decide
  rw [renderCallable, hbody, Text.cells_append, hascii '(' _ rfl, Text.cells_append,
    hascii ')' _ rfl, Text.cells_append, hascii '{' _ rfl, Text.cells_append, hend,
    (printed_blanks hb).cells]
  rfl

end

section

variable {name : String} {ps : List Parameter} {ss : List Statement} {b i : Code}
  (hnamed : name.toList ≠ []) (hident : ∀ d ∈ name.toList, isIdentCell d = true)
  (hfree : name ∉ memberModifiers ++ declarationKeywords) (hps : ∀ p ∈ ps, p.Legible)
  (hb : ∀ c ∈ b, isLayoutBlank c = true) (hss : ∀ s ∈ ss, s.Legible)
  (hi : Segment.Spaced (ss.map fun s => Text.cells s.render.toList) i)

include hfree in
theorem ne_of_free {k : String} (hk : k ∈ memberModifiers ++ declarationKeywords) :
    Text.cells name.toList ≠ k.toList := by
  have hascii : ∀ k ∈ memberModifiers ++ declarationKeywords, Text.cells k.toList = k.toList := by
    decide
  rw [← hascii k hk]
  intro heq
  exact hfree (String.toList_inj.mp (Text.cells_injective heq) ▸ hk)

include hfree in
theorem known?_callableName : Code.known? memberModifiers (Text.cells name.toList) = none := by
  rw [Code.known?, List.find?_eq_none]
  intro k hk heq
  exact ne_of_free hfree (List.mem_append_left _ hk) (beq_iff_eq.mp heq).symm

include hident hfree in
theorem undeclared_callableName : Code.Undeclared (Text.cells name.toList) :=
  Code.undeclared_of_ident (fun c hc => hident c (Text.mem_cells.mp hc)) fun _ hk heq =>
    ne_of_free hfree (List.mem_append_right _ hk) heq

include hps hb hss hi in
/-- What follows the name is found. -/
theorem named?_callableCells :
    ∃ c, (callableCells name ps b i).named? (Text.cells name.toList).length none
        (Text.cells name.toList).length = some c ∧
      List.Forall₂ (fun l p => l.Tells (callableCells name ps b i) p) c.params ps ∧
      (callableCells name ps b i).Stands c.tail b ∧
      ∃ block, c.body = .block block ∧
        List.Forall₂ (callableCells name ps b i).Stands block.statements
          (ss.map fun s => Text.cells s.render.toList) := by
  generalize hy : callableCells name ps b i = y
  generalize hn : (Text.cells name.toList).length = n
  rw [callableCells] at hy
  have hdrop : y.drop n = '(' :: (Text.cells (renderParameters ps).toList ++
      ')' :: (b ++ '{' :: (i ++ ['}']))) := by
    rw [← hy, ← hn, List.drop_left]
  have hparams : y.Shows (n + 1) (Text.cells (renderParameters ps).toList) := by
    have hparen : y.Shows n (['('] ++ (Text.cells (renderParameters ps).toList ++
        ')' :: (b ++ '{' :: (i ++ ['}'])))) := by
      rw [← hy, ← hn]
      exact Code.shows_right _ _
    exact hparen.append_right.append_left
  obtain ⟨params, hlayouts, htells⟩ := parameters?_renderParameters hps hparams
  have hclosed := closed_renderParameters hps
  generalize Text.cells (renderParameters ps).toList = l at hdrop hlayouts hclosed
  have hend : Code.closeFrom '(' ')' 0 (l ++ ')' :: (b ++ '{' :: (i ++ ['}']))) =
      some l.length := by
    have := Code.closeFrom_nested hclosed (.inl ⟨rfl, rfl⟩) 0 (')' :: (b ++ '{' :: (i ++ ['}'])))
    simpa [Code.closeFrom] using this
  have hclose : Code.matchingClose? '(' ')' (y.take y.length) n = some (n + 1 + l.length) := by
    rw [List.take_length, Code.matchingClose?, hdrop]
    simp [hend]
  have hrest : y.drop (n + 1 + l.length + 1) = b ++ '{' :: (i ++ ['}']) := by
    rw [Nat.add_assoc, Nat.add_assoc, ← List.drop_drop, hdrop, Nat.add_comm 1, List.drop_succ_cons,
      ← List.drop_drop, List.drop_left]
    rfl
  have hwindow : y.window (n + 1 + l.length + 1) y.length = b ++ '{' :: (i ++ ['}']) := by
    rw [Code.window_length, hrest]
  have hflat := flat_statements hss hi
  have hnot : ∀ {c : Char}, Segment.isFlat c = false → c ∉ i := by
    intro c hc hmem
    rw [hflat c hmem] at hc
    cases hc
  have hbody := Code.body?_block hrest (hnot rfl) (hnot rfl)
  obtain ⟨hshows, hblock⟩ := Code.window_eq_append hwindow
  obtain ⟨hlt, -, hinside⟩ := Code.window_eq_cons hblock
  obtain ⟨hinner, -⟩ := Code.window_eq_append hinside.symm
  have hstatements := Code.stands_statementRanges hinner hi fun m hm => by
    obtain ⟨s, hs, rfl⟩ := List.mem_map.mp hm
    exact (hss s hs).simple
  have hfound : y.named? n none n = some
      { lead := ⟨0, 0⟩, modifiers := [], result := ⟨0, 0⟩, name := ⟨0, n⟩, typeParams := none
        opening := n, closing := n + 1 + l.length, params
        tail := ⟨n + 1 + l.length + 1, n + 1 + l.length + 1 + b.length⟩
        body := .block (y.blockLayout (n + 1 + l.length + 1 + b.length)
          (n + 1 + l.length + 1 + b.length + 1 + i.length)) } := by
    simp only [Code.named?, hclose, hlayouts, hwindow, Code.bodyStartFrom_blanks hb, hbody,
      Option.bind_eq_bind, Option.bind_some, Nat.min_eq_left (Nat.le_of_lt hlt)]
  exact ⟨_, hfound, htells, ⟨hshows, rfl⟩, _, rfl, hstatements⟩

include hnamed hident hfree hps hb hss hi

theorem exists_named_callableCells :
    ∃ c, (callableCells name ps b i).Named c ∧ c.typeParams = none ∧
      c.name.stop = (Text.cells name.toList).length ∧
      List.Forall₂ (fun l p => l.Tells (callableCells name ps b i) p) c.params ps ∧
      (callableCells name ps b i).Stands c.tail b ∧
      ∃ block, c.body = .block block ∧
        List.Forall₂ (callableCells name ps b i).Stands block.statements
          (ss.map fun s => Text.cells s.render.toList) := by
  obtain ⟨c, hc, hparams, htail, hbody⟩ := @named?_callableCells name ps ss b i hps hb hss hi
  obtain ⟨hname, htypeParams, hopening⟩ := Code.named?_parts hc
  have hcells : ∀ d ∈ Text.cells name.toList, isIdentCell d = true :=
    fun d hd => hident d (Text.mem_cells.mp hd)
  have hne : Text.cells name.toList ≠ [] := by
    obtain ⟨d, rest, hd⟩ := List.exists_cons_of_ne_nil hnamed
    obtain ⟨n, hn, -⟩ := Text.exists_cells_cons d rest
    rw [hd, hn]
    simp
  refine ⟨c, ⟨by rw [hname], ?_, ?_, ?_, ?_, ?_⟩, htypeParams, by rw [hname], hparams, htail, hbody⟩
  · rw [hname, htypeParams, hopening]
    exact callableName?_eq rfl hcells hne
  · rw [hopening, callableCells, List.getElem?_append_right (Nat.le_refl _), Nat.sub_self]
    rfl
  · rw [hopening]
    exact opensTuple_callableName rfl hcells hne (known?_callableName hfree)
  · rw [hopening, callableCells, List.take_left]
    exact undeclared_callableName hident hfree
  · rw [hname, htypeParams, hopening]
    exact hc

end

/-- Layouts that say what they should are read where they can be. -/
theorem mapM_read_of_tells {t : Text} (hs : (Source.plain t).Sound) {ls : List ParameterLayout}
    {ps : List Parameter} (hps : ∀ p ∈ ps, p.Legible)
    (h : List.Forall₂ (fun l p => l.Tells t.cells p) ls ps)
    (hreadable : ∀ l ∈ ls, l.Readable t.cells) :
    ls.mapM (ParameterLayout.read (Source.plain t)) = .ok ps := by
  rw [mapM_eq_ok_iff]
  induction h with
  | nil => exact .nil
  | cons hl _ ih =>
    exact .cons (hl.read (hps _ List.mem_cons_self) (hreadable _ List.mem_cons_self) hs)
      (ih (fun p hp => hps p (List.mem_cons_of_mem _ hp))
        fun l hl => hreadable l (List.mem_cons_of_mem _ hl))

/-- Statements are read where they stand. -/
theorem mapM_read_of_stands {t : Text} (hs : (Source.plain t).Sound) {rs : List Range}
    {ss : List Statement} (hss : ∀ s ∈ ss, s.Legible)
    (h : List.Forall₂ (Code.Stands t.cells) rs (ss.map fun s => Text.cells s.render.toList))
    (hfits : ∀ r ∈ rs, Code.Fits t.cells r) :
    rs.mapM (Statement.read (Source.plain t)) = .ok ss := by
  rw [List.forall₂_map_right_iff] at h
  rw [mapM_eq_ok_iff]
  induction h with
  | nil => exact .nil
  | cons hr _ ih =>
    exact .cons ((hss _ List.mem_cons_self).read hr (hfits _ List.mem_cons_self) hs)
      (ih (fun s hs => hss s (List.mem_cons_of_mem _ hs))
        fun r hr => hfits r (List.mem_cons_of_mem _ hr))

namespace Constructor.Legible

variable {style : Style} (hstyle : style.BlanksOnly) {c : Constructor} (h : c.Legible)
include hstyle h

/-- The cells of a written constructor: modifiers, a name, parameters and a block. -/
theorem exists_cells : ∃ b i : Code, Text.cells (renderCallable style c.name c.parameters c.body) =
      callableCells c.name c.parameters b i ∧
    (∀ d ∈ b, isLayoutBlank d = true) ∧
    ∃ ss : List Statement, c.body = .block ss ∧ (∀ s ∈ ss, s.Legible) ∧
      Segment.Spaced (ss.map fun s => Text.cells s.render.toList) i := by
  obtain ⟨ss, hbody, hss⟩ := h.body
  obtain ⟨b, i, hcells, hb, hi⟩ := cells_renderCallable hstyle c.name c.parameters ss
  exact ⟨b, i, by rw [hbody, hcells], hb, ss, hbody, hss, hi⟩

/-- The cells of a written constructor with its modifiers. -/
theorem exists_text : ∃ b i : Code, Text.cells (c.text style) =
      (renderModifiers c.modifiers).toList ++ callableCells c.name c.parameters b i ∧
    (∀ d ∈ b, isLayoutBlank d = true) ∧
    ∃ ss : List Statement, c.body = .block ss ∧ (∀ s ∈ ss, s.Legible) ∧
      Segment.Spaced (ss.map fun s => Text.cells s.render.toList) i := by
  obtain ⟨b, i, hcells, hrest⟩ := h.exists_cells hstyle
  have hmods : Printed (renderModifiers c.modifiers).toList :=
    printed_renderModifiers (by decide) h.modifiers
  exact ⟨b, i, by rw [Constructor.text, Text.cells_append, hmods.cells, hcells], hrest⟩

/-- A written constructor holds neither comments nor literals. -/
theorem quiet : ∀ d ∈ c.text style, isQuiet d = true := by
  obtain ⟨b, i, hcells, hb, ss, -, hss, hi⟩ := h.exists_text hstyle
  have hmods : Printed (renderModifiers c.modifiers).toList :=
    printed_renderModifiers (by decide) h.modifiers
  intro d hd
  rw [← Text.mem_cells, hcells, callableCells] at hd
  simp only [List.mem_append, List.mem_cons, List.not_mem_nil, or_false] at hd
  rcases hd with hd | hd | rfl | hd | rfl | hd | rfl | hd | rfl
  · exact quiet_of_printed hmods d hd
  · exact isQuiet_of_isIdentCell (h.ident d (Text.mem_cells.mp hd))
  · decide
  · exact quiet_renderParameters h.parameters d (Text.mem_cells.mp hd)
  · decide
  · exact quiet_of_printed (printed_blanks hb) d hd
  · decide
  · exact quiet_statements hss hi d hd
  · decide

theorem sound : (Source.plain (c.text style)).Sound := by
  have := Source.sound_ofText (c.text style)
  rwa [Source.ofText, Text.mask_quiet (h.quiet hstyle)] at this

/-- A written constructor begins with a word. -/
theorem head : ∃ d, (Text.cells (c.text style)).head? = some d ∧ isIdentCell d = true := by
  obtain ⟨b, i, hcells, -⟩ := h.exists_text hstyle
  rw [hcells]
  refine Code.known_memberModifiers.head h.modifiers ?_
  obtain ⟨d, rest, hd⟩ := List.exists_cons_of_ne_nil h.named
  obtain ⟨n, hn, -⟩ := Text.exists_cells_cons d rest
  exact ⟨d, by rw [callableCells, hd, hn]; rfl, h.ident d (by simp [hd])⟩

theorem last : (Text.cells (c.text style)).getLast? = some '}' := by
  obtain ⟨b, i, hcells, -⟩ := h.exists_text hstyle
  have hsplit : callableCells c.name c.parameters b i = (Text.cells c.name.toList ++ '(' ::
      (Text.cells (renderParameters c.parameters).toList ++ ')' :: (b ++ '{' :: i))) ++ ['}'] := by
    simp [callableCells]
  rw [hcells, hsplit, ← List.append_assoc]
  exact List.getLast?_concat

/-- A written constructor is a header with a block. -/
theorem exists_header : ∃ u b i : Code, Text.cells (c.text style) = u ++ b ++ '{' :: (i ++ ['}']) ∧
    (∃ d, u.head? = some d ∧ isLayoutBlank d = false) ∧ Code.stackAfter [] u = some [] ∧
    (∀ d ∈ b, isLayoutBlank d = true) ∧ Mute u ∧
    ∃ ss : List Statement, (∀ s ∈ ss, s.Legible) ∧
      Segment.Spaced (ss.map fun s => Text.cells s.render.toList) i := by
  obtain ⟨b, i, hcells, hb, ss, -, hss, hi⟩ := h.exists_text hstyle
  obtain ⟨d, hd, hident⟩ := h.head hstyle
  have hsplit : Text.cells (c.text style) = ((renderModifiers c.modifiers).toList ++
      (Text.cells c.name.toList ++ (['('] ++
        (Text.cells (renderParameters c.parameters).toList ++ [')'])))) ++ b ++
          '{' :: (i ++ ['}']) := by
    simp [hcells, callableCells]
  have hname : ∀ d ∈ Text.cells c.name.toList, isIdentCell d = true :=
    fun d hd => h.ident d (Text.mem_cells.mp hd)
  refine ⟨_, b, i, hsplit, ⟨d, ?_, isLayoutBlank_eq_false_of_isIdentCell hident⟩, ?_, hb, ?_, ss,
    hss, hi⟩
  · rw [hsplit, List.append_assoc, List.head?_append_of_ne_nil _ (by simp)] at hd
    exact hd
  · have hclosed := Code.stackAfter_weaken (closed_renderParameters h.parameters) [')']
    rw [List.nil_append] at hclosed
    rw [Code.stackAfter_append, Code.stackAfter_of_isInert
      (Code.known_memberModifiers.isInert h.modifiers), Option.bind_some, Code.stackAfter_append,
      Code.stackAfter_of_isInert fun d hd => Code.isInert_of_isIdentCell (hname d hd),
      Option.bind_some, List.singleton_append, Code.stackAfter_cons rfl, Code.stackAfter_append,
      hclosed]
    rfl
  · have hlead : Mute ((renderModifiers c.modifiers).toList ++ Text.cells c.name.toList) :=
      .of_undeclared (Code.known_memberModifiers.undeclared h.modifiers (by decide)
        (undeclared_callableName h.ident h.free))
    have hopen : Mute ['('] := .of_not_ident (by decide)
    rw [← List.append_assoc]
    exact hlead.append (Code.apart_of_head (c := '(') rfl (by decide)) (hopen.append
      (Code.apart_of_last (c := '(') (by simp) (by decide)) (mute_renderParameters h.parameters))

theorem length_lt : 1 < (Text.cells (c.text style)).length := by
  obtain ⟨u, b, i, hcells, -⟩ := h.exists_header hstyle
  rw [hcells]
  simp only [List.length_append, List.length_cons]
  omega

theorem transparent : Transparent (Text.cells (c.text style)) := by
  obtain ⟨u, b, i, hcells, -, hclosed, hb, -, ss, hss, hi⟩ := h.exists_header hstyle
  rw [hcells]
  exact ((Transparent.of_stackAfter hclosed).append (.of_blanks hb)).append
    (transparent_statements hss hi).block

theorem mute : Mute (Text.cells (c.text style)) := by
  obtain ⟨u, b, i, hcells, -, -, hb, hmute, ss, hss, hi⟩ := h.exists_header hstyle
  have hopen : Mute ['{'] := .of_not_ident (by decide)
  have hclose : Mute ['}'] := .of_not_ident (by decide)
  have hblock : Mute (['{'] ++ (i ++ ['}'])) :=
    hopen.append (Code.apart_of_last (c := '{') (by simp) (by decide))
      ((mute_statements hss hi).append (Code.apart_of_head (c := '}') rfl (by decide)) hclose)
  have hlead : Mute (u ++ b) := hmute.append
    (.inr fun d hd => Segment.isIdentCell_of_isLayoutBlank (hb d (List.mem_of_mem_head? hd)))
    (.of_blanks hb)
  rw [hcells]
  exact hlead.append (Code.apart_of_head (c := '{') rfl (by decide)) hblock

theorem cut {code : Code} {stop : Nat} :
    Segment.Cut code code.afterMemberBlock stop (Text.cells (c.text style)) := by
  obtain ⟨u, b, i, hcells, hhead, hclosed, hb, -, ss, hss, hi⟩ := h.exists_header hstyle
  rw [hcells]
  exact Segment.cut_block hhead hclosed hb (flat_statements hss hi)

/-- From its name on, a constructor is found and read. -/
theorem exists_reads : ∃ k : CallableLayout,
    Code.Named (Text.cells (renderCallable style c.name c.parameters c.body)) k ∧
    Code.window (Text.cells (renderCallable style c.name c.parameters c.body)) 0 k.name.stop =
      Text.cells c.name.toList ∧
    k.Reads (Source.plain (renderCallable style c.name c.parameters c.body)) c.name c.parameters
      c.body := by
  obtain ⟨b, i, hcells, hb, ss, hbody, hss, hi⟩ := h.exists_cells hstyle
  obtain ⟨k, hnamed, htypeParams, hstop, hparams, htail, block, hblock, hstatements⟩ :=
    exists_named_callableCells h.named h.ident h.free h.parameters hb hss hi
  have hname : Code.window (callableCells c.name c.parameters b i) 0 k.name.stop =
      Text.cells c.name.toList := by
    rw [hstop]
    exact window_callableName rfl
  rw [← hcells] at hnamed hparams htail hstatements hname
  have hsound := h.sound hstyle
  rw [Constructor.text, Source.plain_append] at hsound
  have hsound := hsound.right (Source.even_plain _) (Source.even_plain _)
  generalize renderCallable style c.name c.parameters c.body = y at *
  have hreadable := hnamed.readable
  refine ⟨k, hnamed, hname, ?_, htypeParams,
    mapM_read_of_tells hsound h.parameters hparams hreadable.params,
    ⟨b, ?_, fun d hd => isWhite_of_isLayoutBlank (hb d hd)⟩, ?_⟩
  · have hshows : Code.Stands (Text.cells y) k.name (Text.cells c.name.toList) := by
      refine ⟨?_, by rw [hnamed.start, Nat.zero_add, hstop]⟩
      rw [hnamed.start, hcells]
      exact shows_callableName rfl
    have hread : (Source.plain y).masked.read k.name = _ :=
      hsound.read_stands hreadable.name hshows
    simp [Source.name, hread, bind, Except.bind, pure, Except.pure]
  · refine hsound.read_stands hreadable.tail ?_
    rw [(printed_blanks hb).cells]
    exact htail
  · have hfits := hreadable.body
    rw [hblock] at hfits ⊢
    have hread := mapM_read_of_stands hsound hss hstatements hfits
    simp [BodyLayout.read, hread, hbody, bind, Except.bind, pure, Except.pure]

/-- A written constructor is read. -/
theorem read (className : Code) (hclass : Text.cells c.name.toList = className) :
    (Source.plain (c.text style)).member className = .ok (.constructor c) := by
  obtain ⟨k, hnamed, hname, hreads⟩ := h.exists_reads hstyle
  have hhead := h.head hstyle
  have hprinted : Printed (renderModifiers c.modifiers).toList :=
    printed_renderModifiers (by decide) h.modifiers
  have hknown := Code.known_memberModifiers
  have hmods : Code.modifiersFrom memberModifiers [] 0 0 (renderModifiers c.modifiers).toList =
      (c.modifiers, (renderModifiers c.modifiers).toList.length) := by
    have hnil : ∀ wordStart pos, Code.modifiersFrom memberModifiers [] wordStart pos [] =
        ([], pos) := fun _ _ => rfl
    simpa using hknown.modifiersFrom h.modifiers hnil 0 0
  have hpass := Code.passAfter_of_isInert (hknown.isInert h.modifiers) 0
  have hundeclared := hknown.undeclared h.modifiers (by decide) Code.undeclared_nil
  have hlast : ∀ d, (renderModifiers c.modifiers).toList.getLast? = some d →
      Code.isNameCell d = false ∧ d ≠ '~' := by
    intro d hd
    rw [Code.last_renderModifiers hd]
    decide
  have hwithin := Source.within_middle (Source.even_plain (renderModifiers c.modifiers).toList)
    (Source.plain (renderCallable style c.name c.parameters c.body)) Source.empty
  rw [Source.append_empty, ← Source.plain_append] at hwithin
  have hread := hreads.shift hwithin
  have hsize : (Source.plain (renderModifiers c.modifiers).toList).masked.size =
      (renderModifiers c.modifiers).toList.length := hprinted.size
  rw [hsize] at hread
  rw [Constructor.text, Text.cells_append, hprinted.cells] at hhead
  rw [Source.member, Source.memberAt]
  change (Code.memberLayout (Text.cells (c.text style)) className
    ⟨0, (Text.cells (c.text style)).length⟩).read _ = _
  rw [Constructor.text, Text.cells_append, hprinted.cells]
  rw [List.append_nil] at hundeclared
  generalize hy : renderCallable style c.name c.parameters c.body = y at *
  generalize (renderModifiers c.modifiers).toList = u at *
  have hdecider : Code.deciderFrom (u ++ Text.cells y) 0 (u ++ Text.cells y).length 0 0 0
      (List.drop 0 u ++ Text.cells y) =
      Code.deciderFrom (u ++ Text.cells y) 0 (u ++ Text.cells y).length 0 0 u.length
        (Text.cells y) := by
    rw [List.drop_zero, Code.deciderFrom_pass hpass, Nat.zero_add]
  have hwhite : Code.isWhiteBetween (u ++ Text.cells y)
      (Code.modifiersFrom memberModifiers [] 0 0 (List.drop 0 u)).2 u.length = true := by
    simp [hmods, Code.isWhiteBetween, Code.window]
  obtain ⟨signature, -, hlayout⟩ := Code.memberLayout_of_named_constructor
    (Code.skipAttributes_ident hhead) (Nat.zero_le _) hnamed hlast hundeclared hdecider hwhite
    (hname.trans hclass)
  rw [hlayout]
  have hlead : Code.skipBlanks (u ++ Text.cells y) 0 u.length ≤ u.length :=
    skipBlanks_le _ (Nat.zero_le _)
  have hread := hread.readConstructor hlead c.modifiers ⟨u.length, u.length⟩
  simp only [MemberLayout.read_eq, List.drop_zero, hmods, hread, bind, Except.bind, pure,
    Except.pure]
  obtain ⟨name, modifiers, parameters, initializer, body⟩ := c
  have hnone := h.initializer
  simp only at hnone
  rw [hnone]

end Constructor.Legible

end ClassRefactor
