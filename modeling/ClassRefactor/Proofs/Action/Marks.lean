import ClassRefactor.Proofs.Action.Addition
import ClassRefactor.Proofs.Edit.Merge
import ClassRefactor.Proofs.Layout.Class

/-!
# Where the edits of two classes cannot meet

Most edits go before a closing brace or parenthesis of their class. Only white space stands between
such an edit and its delimiter, so no other delimiter does, and edits before different delimiters
are apart. A class that is laid out anew is different: its edit takes in the whole body.
-/

namespace ClassRefactor

/-- No brace and no closing parenthesis stands between two positions. -/
def Code.Bare (code : Code) (start stop : Nat) : Prop :=
  ∀ p d, start ≤ p → p < stop → code[p]? = some d → d ∉ ['{', '}', ')']

theorem Code.Bare.lt_start {code : Code} {start stop p : Nat} {d : Char}
    (h : code.Bare start stop) (hcell : code[p]? = some d) (hd : d ∈ ['{', '}', ')'])
    (hp : p < stop) : p < start := by
  by_contra hle
  exact h p d (Nat.le_of_not_lt hle) hp hcell hd

/-- White space of the source holds no delimiter of the code. -/
theorem Text.bare_of_strip_slice {t : Text} {i j : Nat} (hi : t.isBoundary i = true)
    (hj : t.isBoundary j = true) (hwhite : (t.slice i j).strip = []) :
    Code.Bare t.mask.cells i j := by
  intro p d hp hlt hcell hd
  have hne : d ≠ ' ' ∧ d ≠ '"' ∧ isWhite d = false := by
    simp only [List.mem_cons, List.not_mem_nil, or_false] at hd
    rcases hd with rfl | rfl | rfl <;> decide
  have hsource := Text.getElem?_cells_of_mask hcell hne.1 hne.2.1
  rw [Text.isWhite_of_strip_slice hi hj hwhite hp hlt hsource] at hne
  cases hne.2.2

/-- A range that ends before a delimiter, with no other delimiter in between. -/
structure Range.Reaches (code : Code) (r : Range) (p : Nat) : Prop where
  ordered : r.start ≤ r.stop
  before : r.stop ≤ p
  bare : code.Bare r.start p

theorem Range.Reaches.beside {code : Code} {r s : Range} {p q : Nat} {a b : Char}
    (hr : r.Reaches code p) (hs : s.Reaches code q) (hp : code[p]? = some a)
    (ha : a ∈ ['{', '}', ')']) (hq : code[q]? = some b) (hb : b ∈ ['{', '}', ')'])
    (hne : p ≠ q) : r.Beside s := by
  have hpr := hr.before
  have hqs := hs.before
  rcases Nat.lt_or_gt_of_ne hne with hlt | hgt
  · have := hs.bare.lt_start hp ha hlt
    exact .inl (by omega)
  · have := hr.bare.lt_start hq hb hgt
    exact .inr (by omega)

namespace ParsedClass

variable {text : Text} {file : SourceFile} {c d : ParsedClass}

/-- The delimiters that the additions to a class go before. -/
def marks (c : ParsedClass) : List Nat :=
  c.braces.stop :: (c.constructorParts?.map fun parts => parts.1.closing).toList

/-- What keeps the edits of `c` away from those of `d`: they go before different braces, and if `c`
is laid out anew, no mark of `d` is in its body. -/
structure KeepsOff (text : Text) (c d : ParsedClass) : Prop where
  braces : c.braces.stop ≠ d.braces.stop
  relaid : c.IsRelaid text → ∀ p ∈ d.marks, p ≤ c.layout.opening ∨ c.layout.closing < p

theorem wellLaid_mask (hfile : SourceFile.parse text = .ok file) (hc : c ∈ file.classes) :
    c.layout.WellLaid text.mask.cells :=
  (Code.classLayouts_spec (SourceFile.layout_of_mem_classes hfile hc).1).1

/-- The range of an addition: the body of a class that is laid out anew, or one that reaches up to a
mark. -/
inductive Stakes (text : Text) (c : ParsedClass) (r : Range) : Prop
  | body (h : c.IsRelaid text) (hrange : r = ⟨c.headerStop text, c.layout.closing + 1⟩)
  | brace (h : r.Reaches text.mask.cells c.braces.stop)
  | parenthesis {p : Nat} (h : r.Reaches text.mask.cells p) (hp : p ∈ c.marks)
      (hcell : text.mask.cells[p]? = some ')') (hempty : r.start = r.stop)

theorem Addition.stakes (hfile : SourceFile.parse text = .ok file) (hc : c ∈ file.classes)
    {r : Replacement} (h : c.Addition text r) : c.Stakes text r.range := by
  cases h with
  | relaid h hrange => exact .body h hrange
  | before h _ =>
    exact .brace ⟨h.ordered, h.before, Text.bare_of_strip_slice h.start h.boundary h.white⟩
  | @parameters callable block h hrange =>
    obtain ⟨layout, hmem, hcallable, -⟩ := constructorParts?_spec h
    have hlayout := (SourceFile.layout_of_mem_classes hfile hc).1
    have hlaid := ((wellLaid_mask hfile hc).member layout hmem).callable callable hcallable
    have hparams := (Code.classLayouts_callable? hlayout hmem hcallable).1
    have hlength := (List.getElem?_eq_some_iff.mp hlaid.closes).1
    have hstop := (parameterStop_within hfile hc h).2.2.1
    rw [hrange]
    refine .parenthesis ⟨Nat.le_refl _, hstop, ?_⟩ (by simp [marks, h]) hlaid.closes rfl
    -- Only blanks stand after the last parameter; without one the range ends at the parenthesis.
    intro p d hp hlt hcell hd
    simp only [Range.emptyAt] at hp
    cases hlast : callable.params.getLast? with
    | none =>
      simp only [CallableLayout.parameterStop, hlast, Option.map_none, Option.getD_none] at hp
      omega
    | some last =>
      simp only [CallableLayout.parameterStop, hlast, Option.map_some, Option.getD_some] at hp
      obtain ⟨e, he, hblank⟩ := Code.isLayoutBlank_of_parameters? hlaid.ordered
        (Nat.le_of_lt hlength) hparams hlast hp hlt
      rw [hcell] at he
      obtain rfl := Option.some.inj he
      simp only [List.mem_cons, List.not_mem_nil, or_false] at hd
      rcases hd with rfl | rfl | rfl <;> revert hblank <;> decide

/-- The header of a class that is laid out anew holds no delimiter where its edit begins. -/
theorem bare_headerStop (hfile : SourceFile.parse text = .ok file) (hc : c ∈ file.classes) :
    Code.Bare text.mask.cells (c.headerStop text) c.layout.opening := by
  have hcut := cuttable_of_mem_classes hfile hc
  obtain ⟨hboundary, -, -, hwhite⟩ := headerStop_spec hcut
  exact Text.bare_of_strip_slice hboundary hcut.opening.1 hwhite

/-- A body laid out anew and a range that reaches a mark outside it. -/
theorem beside_of_mark (hfile : SourceFile.parse text = .ok file) (hc : c ∈ file.classes)
    {s : Range} {p : Nat} {e : Char} (hs : s.Reaches text.mask.cells p)
    (hcell : text.mask.cells[p]? = some e) (he : e ∈ ['}', ')'])
    (hp : p ≤ c.layout.opening ∨ c.layout.closing < p) :
    Range.Beside ⟨c.headerStop text, c.layout.closing + 1⟩ s := by
  have hlaid := wellLaid_mask hfile hc
  have hdelimiter : e ∈ ['{', '}', ')'] := List.mem_cons_of_mem _ he
  have hbefore := hs.before
  rcases hp with hle | hlt
  · have hne : p ≠ c.layout.opening := by
      rintro rfl
      rw [hlaid.opens] at hcell
      obtain rfl := Option.some.inj hcell
      revert he
      decide
    have := (bare_headerStop hfile hc).lt_start hcell hdelimiter (Nat.lt_of_le_of_ne hle hne)
    exact .inr (by simp only; omega)
  · have := hs.bare.lt_start hlaid.closes (by decide) hlt
    exact .inl (by simp only; omega)

theorem mem_marks_braces (c : ParsedClass) : c.braces.stop ∈ c.marks := List.mem_cons_self

theorem closes_braces (hfile : SourceFile.parse text = .ok file) (hc : c ∈ file.classes) :
    text.mask.cells[c.braces.stop]? = some '}' :=
  (braces_spec (wellLaid_mask hfile hc)).2.2.2

/-- The body of a class that is laid out anew stays clear of the edits of a class it keeps off. -/
theorem Stakes.beside_body (hfile : SourceFile.parse text = .ok file) (hc : c ∈ file.classes)
    (hd : d ∈ file.classes) (hcd : KeepsOff text c d) (hdc : KeepsOff text d c)
    (hrelaid : c.IsRelaid text) {s : Range} (hs : d.Stakes text s) :
    Range.Beside ⟨c.headerStop text, c.layout.closing + 1⟩ s := by
  cases hs with
  | body h hrange =>
    -- Each of the two bodies ends outside the other, so the one that ends first lies before.
    have hbraces : ∀ e : ParsedClass, e.IsRelaid text → e.braces.stop = e.layout.closing := by
      intro e he
      rw [braces_of_none (constructorParts?_of_none he.1)]
    have h1 := hcd.relaid hrelaid _ d.mem_marks_braces
    have h2 := hdc.relaid h _ c.mem_marks_braces
    rw [hbraces d h] at h1
    rw [hbraces c hrelaid] at h2
    have hlaid := wellLaid_mask hfile hc
    have hlaid' := wellLaid_mask hfile hd
    have hordered := hlaid.ordered
    have hordered' := hlaid'.ordered
    have hne : ∀ {e f : ParsedClass}, e.layout.WellLaid text.mask.cells →
        f.layout.WellLaid text.mask.cells → e.layout.closing ≠ f.layout.opening := by
      intro e f he hf heq
      have := he.closes
      rw [heq, hf.opens] at this
      cases this
    rw [hrange]
    rcases h1 with hle | hlt
    · have := (bare_headerStop hfile hc).lt_start hlaid'.closes (by decide)
        (Nat.lt_of_le_of_ne hle (hne hlaid' hlaid))
      exact .inr (by simp only; omega)
    · have hle : c.layout.closing ≤ d.layout.opening := by omega
      have := (bare_headerStop hfile hd).lt_start hlaid.closes (by decide)
        (Nat.lt_of_le_of_ne hle (hne hlaid hlaid'))
      exact .inl (by simp only; omega)
  | brace h =>
    exact beside_of_mark hfile hc h (closes_braces hfile hd) (by decide)
      (hcd.relaid hrelaid _ d.mem_marks_braces)
  | parenthesis h hp hcell _ =>
    exact beside_of_mark hfile hc h hcell (by decide) (hcd.relaid hrelaid _ hp)

/-- The edits of two classes that keep off each other do not overlap. -/
theorem Stakes.beside (hfile : SourceFile.parse text = .ok file) (hc : c ∈ file.classes)
    (hd : d ∈ file.classes) (hcd : KeepsOff text c d) (hdc : KeepsOff text d c) {r s : Range}
    (hr : c.Stakes text r) (hs : d.Stakes text s) : r.Beside s := by
  have hbrace := closes_braces hfile hc
  have hbrace' := closes_braces hfile hd
  cases hr with
  | body h hrange =>
    rw [hrange]
    exact hs.beside_body hfile hc hd hcd hdc h
  | brace hr' =>
    cases hs with
    | body h hrange =>
      rw [hrange]
      exact (Stakes.beside_body hfile hd hc hdc hcd h (.brace hr')).symm
    | brace hs' => exact hr'.beside hs' hbrace (by decide) hbrace' (by decide) hcd.braces
    | parenthesis hs' _ hcell _ =>
      refine hr'.beside hs' hbrace (by decide) hcell (by decide) ?_
      rintro rfl
      rw [hbrace] at hcell
      cases hcell
  | @parenthesis p hr' hp hcell hempty =>
    cases hs with
    | body h hrange =>
      rw [hrange]
      exact (Stakes.beside_body hfile hd hc hdc hcd h (.parenthesis hr' hp hcell hempty)).symm
    | brace hs' =>
      refine hr'.beside hs' hcell (by decide) hbrace' (by decide) ?_
      rintro rfl
      rw [hbrace'] at hcell
      cases hcell
    | parenthesis hs' _ _ hempty' =>
      -- Two empty ranges are beside each other wherever they are.
      rcases Nat.le_total r.start s.start with hle | hle
      · exact .inl (by omega)
      · exact .inr (by omega)

end ParsedClass

end ClassRefactor
