import ClassRefactor.Proofs.Growth.Parameter
import ClassRefactor.Proofs.Growth.Passed
import ClassRefactor.Proofs.Tree.Content
import ClassRefactor.Proofs.Written.Member

/-!
# Added statements

An assignment between names is found in the cells of the text that it is written as, and is read
there. A block of such assignments is passed over by searches.
-/

namespace ClassRefactor

/-! Statements. -/

/-- The letters and numbers of ASCII are the usual ones. -/
theorem asciiRanges : ∀ r ∈ letterRanges ++ numberRanges,
    0x80 ≤ r.1 ∨ r ∈ [(0x41, 0x5A), (0x61, 0x7A), (0x30, 0x39)] := by decide +kernel

theorem isIdentCell_of_continues {c : Char} (h : Statement.continues c = true) :
    isIdentCell c = true := by
  have hranges : ∀ r ∈ letterRanges ++ numberRanges, r.1 ≤ c.toNat → c.toNat ≤ r.2 →
      isIdentCell c = true := by
    intro r hr hlo hhi
    rcases asciiRanges r hr with hge | hmem
    · simp [isIdentCell, Nat.le_trans hge hlo]
    · have halnum : c.isAlphanum = true := by
        simp only [List.mem_cons, List.not_mem_nil, or_false] at hmem
        delta Char.isAlphanum Char.isAlpha Char.isUpper Char.isLower Char.isDigit
        simp only [Bool.or_eq_true, Bool.and_eq_true, decide_eq_true_eq, ge_iff_le,
          UInt32.le_iff_toNat_le]
        rcases hmem with rfl | rfl | rfl
        · exact .inl (.inl ⟨hlo, hhi⟩)
        · exact .inl (.inr ⟨hlo, hhi⟩)
        · exact .inr ⟨hlo, hhi⟩
      simp [isIdentCell, halnum]
  simp only [Statement.continues, isLetter, isNumber, isInRanges, Bool.or_eq_true, List.any_eq_true,
    Bool.and_eq_true, decide_eq_true_eq, beq_iff_eq] at h
  rcases h with (⟨r, hr, hlo, hhi⟩ | ⟨r, hr, hlo, hhi⟩) | rfl
  · exact hranges r (List.mem_append_left _ hr) hlo hhi
  · exact hranges r (List.mem_append_right _ hr) hlo hhi
  · decide

theorem isQuiet_of_isIdentCell {c : Char} (h : isIdentCell c = true) : isQuiet c = true :=
  isQuiet_of_isTypeCell (by simp [isTypeCell, h])

theorem Statement.IsIdent.ident {t : Text} (h : Statement.IsIdent t) :
    t ≠ [] ∧ ∀ c ∈ t, isIdentCell c = true := by
  have hplain : ∀ {u : Text}, Statement.IsPlain u → u ≠ [] ∧ ∀ c ∈ u, isIdentCell c = true := by
    rintro _ ⟨c, rest, rfl, hstarts, hrest⟩
    have hc : Statement.continues c = true := by
      simp only [Statement.starts, Statement.continues, Bool.or_eq_true] at hstarts ⊢
      rcases hstarts with hc | hc <;> simp [hc]
    exact ⟨by simp, List.forall_mem_cons.mpr ⟨isIdentCell_of_continues hc, fun d hd =>
      isIdentCell_of_continues (hrest d hd)⟩⟩
  rcases h with h | ⟨u, h, rfl⟩
  · exact hplain h
  · exact ⟨by simp, List.forall_mem_cons.mpr ⟨by decide, (hplain h).2⟩⟩

/-- An assignment that is read back from the text that it is written as. -/
inductive Statement.Legible : Statement → Prop
  | assignment {target value : String} (htarget : Statement.isName target = true)
    (hvalue : Statement.isName value = true) : Statement.Legible (.assignment target value)

namespace Statement.Legible

variable {s : Statement} (h : s.Legible)
include h

/-- A written assignment: words with an `=` between them and a `;` behind. -/
theorem cells_eq : ∃ target value : Code, Text.cells s.render.toList =
      target ++ ([' '] ++ ['=']) ++ ([' '] ++ (value ++ ([] ++ [';']))) ∧
    target ≠ [] ∧ (∀ c ∈ target, isIdentCell c = true) ∧ ∀ c ∈ value, isIdentCell c = true := by
  cases h with
  | @assignment target value htarget hvalue =>
    obtain ⟨hne, ht⟩ := (Statement.isName_iff.mp htarget).1.ident
    obtain ⟨-, hv⟩ := (Statement.isName_iff.mp hvalue).1.ident
    refine ⟨Text.cells target.toList, Text.cells value.toList, ?_, ?_,
      fun c hc => ht c (Text.mem_cells.mp hc), fun c hc => hv c (Text.mem_cells.mp hc)⟩
    · have hrender : (Statement.assignment target value).render.toList =
          target.toList ++ (" = ".toList ++ (value.toList ++ [';'])) := by
        simp [Statement.render, String.toList_append]
      have hmarks : Text.cells " = ".toList = [' ', '=', ' '] ∧ Text.cells [';'] = [';'] := by decide
      rw [hrender, Text.cells_append, Text.cells_append, Text.cells_append, hmarks.1, hmarks.2]
      simp
    · obtain ⟨c, rest, hc⟩ := List.exists_cons_of_ne_nil hne
      obtain ⟨n, hn, -⟩ := Text.exists_cells_cons c rest
      rw [hc, hn]
      simp

theorem simple : Segment.Simple (Text.cells s.render.toList) := by
  obtain ⟨target, value, hs, hne, ht, hv⟩ := h.cells_eq
  refine ⟨⟨target.head hne, ?_, ht _ (List.head_mem hne)⟩,
    target ++ ([' '] ++ ['=']) ++ ([' '] ++ value), ?_, by simp, fun c hc => ?_⟩
  · rw [hs, List.append_assoc, List.head?_append_of_ne_nil _ hne]
    exact List.head?_eq_some_head hne
  · rw [hs]
    simp
  · simp only [List.mem_append, List.mem_cons, List.not_mem_nil, or_false] at hc
    rcases hc with (hc | rfl | rfl) | rfl | hc
    · exact Segment.isFlat_of_isInert (Code.isInert_of_isIdentCell (ht c hc))
    · decide
    · decide
    · decide
    · exact Segment.isFlat_of_isInert (Code.isInert_of_isIdentCell (hv c hc))

theorem transparent : Code.Transparent (Text.cells s.render.toList) := by
  obtain ⟨target, value, hs, -, ht, hv⟩ := h.cells_eq
  have hident : ∀ {l : Code}, (∀ c ∈ l, isIdentCell c = true) → Code.Transparent l :=
    fun hl => .of_isInert fun c hc => Code.isInert_of_isIdentCell (hl c hc)
  have hspace : Code.Transparent [' '] := .of_blanks (by decide)
  rw [hs]
  exact ((hident ht).append (hspace.append (.singleton (.inr rfl)))).append
    (hspace.append ((hident hv).append (Code.Transparent.nil.append (.singleton (.inl rfl)))))

theorem mute : Code.Mute (Text.cells s.render.toList) := by
  obtain ⟨target, value, hs, -, ht, hv⟩ := h.cells_eq
  rw [hs]
  refine (Code.Mute.word ht (by decide) (by decide) (by decide)).append
    (Code.apart_of_last (c := '=') (by simp) (by decide)) ?_
  exact (Code.Mute.of_blanks (by decide)).append (Code.apart_of_last (c := ' ') (by simp) (by decide))
    (Code.Mute.word hv (by simp) (by decide) (by decide))

theorem quiet : ∀ c ∈ s.render.toList, isQuiet c = true := by
  intro c hc
  obtain ⟨target, value, hs, -, ht, hv⟩ := h.cells_eq
  rw [← Text.mem_cells, hs] at hc
  simp only [List.mem_append, List.mem_cons, List.not_mem_nil, or_false, false_or] at hc
  rcases hc with (hc | rfl | rfl) | rfl | hc | rfl
  · exact isQuiet_of_isIdentCell (ht c hc)
  · decide
  · decide
  · decide
  · exact isQuiet_of_isIdentCell (hv c hc)
  · decide

/-- An assignment is read where it stands. -/
theorem read {t : Text} {r : Range} (hr : Code.Stands t.cells r (Text.cells s.render.toList))
    (hfits : Code.Fits t.cells r) (hs : (Source.plain t).Sound) :
    Statement.read (Source.plain t) r = .ok s := by
  have hread : Text.read t r = .ok s.render.toList := hs.read_stands hfits hr
  cases h with
  | @assignment target value htarget hvalue =>
    rw [Statement.read]
    simp only [Source.plain, hread, bind, Except.bind, pure, Except.pure]
    rw [(Statement.ofText_render_iff target value).mpr ⟨htarget, hvalue⟩]

end Statement.Legible

/-! Segments between blanks. -/

namespace Segment.Spaced

/-- Blanks are their own cells. -/
theorem cells {ms : List Text} {t : Text} (h : Segment.Spaced ms t) :
    Segment.Spaced (ms.map Text.cells) (Text.cells t) := by
  induction h with
  | nil hb =>
    rw [(printed_blanks hb).cells]
    exact .nil hb
  | cons hb _ ih =>
    rw [Text.cells_append, Text.cells_append, (printed_blanks hb).cells]
    exact .cons hb ih

variable {ms : List Code} {t : Code} (h : Segment.Spaced ms t)
include h

/-- A cell stands in a segment or is a blank. -/
theorem mem {c : Char} (hc : c ∈ t) : isLayoutBlank c = true ∨ ∃ m ∈ ms, c ∈ m := by
  induction h with
  | nil hb => exact .inl (hb c hc)
  | cons hb _ ih =>
    simp only [List.mem_append] at hc
    rcases hc with (hc | hc) | hc
    · exact .inl (hb c hc)
    · exact .inr ⟨_, List.mem_cons_self, hc⟩
    · exact (ih hc).imp_right fun ⟨m, hm, hmem⟩ => ⟨m, List.mem_cons_of_mem _ hm, hmem⟩

theorem transparent (hms : ∀ m ∈ ms, Code.Transparent m) : Code.Transparent t := by
  induction h with
  | nil hb => exact .of_blanks hb
  | cons hb _ ih =>
    exact ((Code.Transparent.of_blanks hb).append (hms _ List.mem_cons_self)).append
      (ih fun n hn => hms n (List.mem_cons_of_mem _ hn))

/-- No name follows a keyword if none does within a segment. -/
theorem mute (hms : ∀ m ∈ ms, Code.Mute m ∧ ∃ c, m.getLast? = some c ∧ isIdentCell c = false) :
    Code.Mute t := by
  induction h with
  | nil hb => exact .of_blanks hb
  | @cons b m t ms hb _ ih =>
    obtain ⟨hm, c, hc, hident⟩ := hms m List.mem_cons_self
    have happart : Code.Apart b m := .inl fun d hd =>
      isIdentCell_of_isLayoutBlank (hb d (List.mem_of_getLast? hd))
    have hlast : (b ++ m).getLast? = some c := by rw [List.getLast?_append, hc]; rfl
    exact ((Code.Mute.of_blanks hb).append happart hm).append (Code.apart_of_last hlast hident)
      (ih fun n hn => hms n (List.mem_cons_of_mem _ hn))

end Segment.Spaced

/-- What stands between the braces of a block of written assignments. -/
theorem spaced_cells {ss : List Statement} {i : Text}
    (h : Segment.Spaced (ss.map fun s => s.render.toList) i) :
    Segment.Spaced (ss.map fun s => Text.cells s.render.toList) i.cells := by
  have := h.cells
  rwa [List.map_map] at this

section

variable {ss : List Statement} (hss : ∀ s ∈ ss, s.Legible) {i : Code}
  (hi : Segment.Spaced (ss.map fun s => Text.cells s.render.toList) i)
include hss hi

theorem transparent_statements : Code.Transparent i :=
  hi.transparent fun m hm => by
    obtain ⟨s, hs, rfl⟩ := List.mem_map.mp hm
    exact (hss s hs).transparent

theorem mute_statements : Code.Mute i :=
  hi.mute fun m hm => by
    obtain ⟨s, hs, rfl⟩ := List.mem_map.mp hm
    obtain ⟨-, w, hw, -⟩ := (hss s hs).simple
    exact ⟨(hss s hs).mute, ';', by rw [hw]; simp, by decide⟩

theorem quiet_statements : ∀ c ∈ i, isQuiet c = true := by
  intro c hc
  rcases hi.mem hc with hblank | ⟨m, hm, hmem⟩
  · have := printed_blanks (b := [c]) (by simpa using hblank) c List.mem_cons_self
    simp only [isPrinted, Bool.and_eq_true] at this
    exact this.2
  · obtain ⟨s, hs, rfl⟩ := List.mem_map.mp hm
    exact (hss s hs).quiet c (Text.mem_cells.mp hmem)

theorem flat_statements : ∀ c ∈ i, Segment.isFlat c = true :=
  hi.flat fun m hm c hc => by
    obtain ⟨s, hs, rfl⟩ := List.mem_map.mp hm
    obtain ⟨-, w, hw, -, hflat⟩ := (hss s hs).simple
    rw [hw, List.mem_append, List.mem_singleton] at hc
    rcases hc with hc | rfl
    · exact (hflat c hc).1
    · decide

theorem unassigned_statements : Code.Unassigned i :=
  hi.unassigned fun m hm => by
    obtain ⟨s, hs, rfl⟩ := List.mem_map.mp hm
    obtain ⟨⟨c, hc, hident⟩, -⟩ := (hss s hs).simple
    refine ⟨c, hc, isLayoutBlank_eq_false_of_isIdentCell hident, ?_⟩
    rintro rfl
    exact absurd hident (by decide)

omit hss in
/-- Statements are blanks, or begin with the first of them behind blanks. -/
theorem cases_statements : (∀ c ∈ i, isLayoutBlank c = true) ∨
    ∃ s ∈ ss, ∃ b t : Code, i = b ++ (Text.cells s.render.toList ++ t) ∧
      ∀ c ∈ b, isLayoutBlank c = true := by
  generalize hms : ss.map (fun s => Text.cells s.render.toList) = ms at hi
  cases hi with
  | nil hb => exact .inl hb
  | @cons b m t ms hb h =>
    obtain ⟨s, hs, rfl⟩ := List.mem_map.mp (hms ▸ List.mem_cons_self)
    exact .inr ⟨s, hs, b, t, List.append_assoc .., hb⟩

theorem head_statements {c : Char} (hc : i.head? = some c) :
    isLayoutBlank c = true ∨ isIdentCell c = true := by
  rcases cases_statements hi with hblanks | ⟨s, hs, b, t, rfl, hb⟩
  · exact .inl (hblanks c (List.mem_of_mem_head? hc))
  · obtain ⟨⟨d, hd, hident⟩, -⟩ := (hss s hs).simple
    obtain ⟨rest, hrest⟩ := List.head?_eq_some_iff.mp hd
    cases b with
    | nil =>
      rw [hrest] at hc
      exact .inr (Option.some.inj hc ▸ hident)
    | cons e b => exact .inl (Option.some.inj hc ▸ hb e List.mem_cons_self)

end

end ClassRefactor
