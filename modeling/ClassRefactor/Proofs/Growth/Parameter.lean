import ClassRefactor.Proofs.Convert.Lead
import ClassRefactor.Proofs.Source.Local
import ClassRefactor.Proofs.Written.Parameter

/-!
# Added parameters

A parameter with a well-formed type is found in the cells of the text that it is written as, and is
read there, whatever letters its names are made of.
-/

namespace ClassRefactor

/-! Reading what stands in a range. -/

/-- Texts with the same cells are the same. -/
theorem Text.cells_injective : Function.Injective Text.cells := by
  intro s t h
  induction s generalizing t with
  | nil =>
    cases t with
    | nil => rfl
    | cons d t =>
      obtain ⟨n, hn, -⟩ := exists_cells_cons d t
      rw [hn] at h
      cases h
  | cons c s ih =>
    cases t with
    | nil =>
      obtain ⟨n, hn, -⟩ := exists_cells_cons c s
      rw [hn] at h
      cases h
    | cons d t =>
      obtain ⟨n, hn, hsize⟩ := exists_cells_cons c s
      obtain ⟨m, hm, hsize'⟩ := exists_cells_cons d t
      rw [hn, hm] at h
      obtain ⟨rfl, hrest⟩ := List.cons.inj h
      obtain rfl : n = m := by omega
      rw [ih (List.append_cancel_left hrest)]

/-- A range that fits is read as the text whose cells stand there. -/
theorem Source.Sound.read_stands {t part : Text} {r : Range} (hs : (Source.plain t).Sound)
    (hfits : Code.Fits t.cells r) (h : Code.Stands t.cells r part.cells) :
    Text.read t r = .ok part := by
  obtain ⟨a, m, b, heq, -, hm, -, hstart, hstop⟩ :=
    hs.exists_parts (Source.even_plain t) (r := r) hfits
  obtain rfl : t = a.masked ++ m.masked ++ b.masked := congrArg Source.masked heq
  have hcells : Text.cells m.masked = part.cells := by
    have hshows : Code.Shows (Text.cells (a.masked ++ m.masked ++ b.masked)) r.start
        (Text.cells m.masked) := by
      rw [Text.cells_append, Text.cells_append, ← hstart, ← Text.length_cells]
      exact Code.shows_append _ _ _
    rw [← hshows.window_self, ← h.shows.window_self, Text.length_cells, ← h.stop, ← hstop, hstart]
  have hread := Text.read_append (a := a.masked) (b := b.masked) (Text.read_all m.masked)
  have hrange : r = (⟨0, m.masked.size⟩ : Range).shift a.masked.size := by
    rw [show r = ⟨r.start, r.stop⟩ from rfl, ← hstart, ← hstop]
    rfl
  rw [hrange, hread, Text.cells_injective hcells]

namespace Code

/-- A type that no modifier begins is not taken for one. -/
theorem modifiersFrom_type {known : List String} {type : TypeRef} (ht : type.WellFormed)
    (hleads : known? known ((Text.cells type.render.toList).takeWhile isIdentCell) = none)
    (wordStart pos : Nat) (rest : Code) :
    modifiersFrom known [] wordStart pos (Text.cells type.render.toList ++ ' ' :: rest) =
      ([], pos) := by
  obtain ⟨c, tail, hc, -, hhead⟩ := ht.head
  obtain ⟨n, hn, -⟩ := Text.exists_cells_cons c tail
  rw [← hc] at hn
  rcases hhead with hident | rfl
  · have hsplit := List.takeWhile_append_dropWhile (p := isIdentCell)
      (l := Text.cells type.render.toList)
    have hne : (Text.cells type.render.toList).takeWhile isIdentCell ≠ [] := by
      rw [hn, List.takeWhile_cons_of_pos hident]
      simp
    rw [← hsplit, List.append_assoc]
    refine modifiersFrom_unknown (fun e he => List.mem_takeWhile_imp he) hne hleads
      (fun e he => ?_) wordStart pos
    have hdrop := List.head?_dropWhile_not isIdentCell (Text.cells type.render.toList)
    cases hrest : (Text.cells type.render.toList).dropWhile isIdentCell with
    | nil =>
      rw [hrest] at he
      rw [← Option.some.inj he]
      decide
    | cons f rest' =>
      rw [hrest] at he hdrop
      obtain rfl := Option.some.inj he
      simpa using hdrop
  · rw [hn]
    rfl

end Code

/-- A parameter that is read back from the text that it is written as. Its type is well-formed, and
what the type begins with is no modifier. -/
structure Parameter.Legible (p : Parameter) : Prop where
  modifiers : p.modifiers = []
  default : p.default = none
  type : p.type.WellFormed
  leads : Code.known? parameterModifiers
    ((Text.cells p.type.render.toList).takeWhile isIdentCell) = none
  named : p.name.toList ≠ []
  ident : ∀ c ∈ p.name.toList, isIdentCell c = true

/-- A layout that says where the type and the name of a parameter stand. -/
structure ParameterLayout.Tells (code : Code) (l : ParameterLayout) (p : Parameter) : Prop where
  modifiers : l.modifiers = p.modifiers
  default : l.default = none
  type : code.Stands l.type (Text.cells p.type.render.toList)
  name : code.Stands l.name (Text.cells p.name.toList)
  within : l.range.start ≤ l.type.start ∧ l.type.stop ≤ l.name.start ∧ l.name.stop ≤ l.range.stop

/-- What a layout says is read where it can be. -/
theorem ParameterLayout.Tells.read {t : Text} {l : ParameterLayout} {p : Parameter}
    (h : l.Tells t.cells p) (hp : p.Legible) (hl : l.Readable t.cells)
    (hs : (Source.plain t).Sound) : l.read (Source.plain t) = .ok p := by
  have htype : (Source.plain t).type l.type = .ok p.type := by
    have hread : (Source.plain t).text.read l.type = _ := hs.read_stands hl.type h.type
    simp [Source.type, hread, hp.type.legible.parse_render, bind, Except.bind, pure, Except.pure]
  have hname : (Source.plain t).name l.name = .ok p.name := by
    have hread : (Source.plain t).masked.read l.name = _ := hs.read_stands hl.name h.name
    simp [Source.name, hread, bind, Except.bind, pure, Except.pure]
  obtain ⟨modifiers, type, name, default⟩ := p
  have hmodifiers := h.modifiers
  have hdefault := hp.default
  simp only at hmodifiers hdefault htype hname
  subst hdefault
  simp [ParameterLayout.read, hl.range.checked, h.default, hmodifiers, htype, hname,
    Source.optional, bind, Except.bind, pure, Except.pure]

namespace Parameter.Legible

variable {p : Parameter} (h : p.Legible)
include h

theorem cells_eq : Text.cells p.render.toList =
    Text.cells p.type.render.toList ++ ' ' :: Text.cells p.name.toList := by
  have hrender : p.render.toList = p.type.render.toList ++ (' ' :: p.name.toList) := by
    simp [Parameter.render, h.modifiers, h.default, renderModifiers, concat, String.toList_append]
  rw [hrender, Text.cells_append, Text.cells_cons]
  rfl

theorem ident_cells : ∀ c ∈ Text.cells p.name.toList, isIdentCell c = true :=
  fun c hc => h.ident c (Text.mem_cells.mp hc)

theorem cells_ne_nil : Text.cells p.name.toList ≠ [] := by
  obtain ⟨c, rest, hc⟩ := List.exists_cons_of_ne_nil h.named
  obtain ⟨n, hn, -⟩ := Text.exists_cells_cons c rest
  rw [hc, hn]
  simp

theorem last : ∃ c, (Text.cells p.render.toList).getLast? = some c ∧ isIdentCell c = true := by
  refine ⟨_, ?_, h.ident_cells _ (List.getLast_mem h.cells_ne_nil)⟩
  rw [h.cells_eq, List.getLast?_append_of_ne_nil _ (by simp),
    List.getLast?_cons_of_ne_nil h.cells_ne_nil]
  exact List.getLast?_eq_some_getLast h.cells_ne_nil

theorem head : ∃ c, (Text.cells p.render.toList).head? = some c ∧
    (isIdentCell c = true ∨ c = '(') := by
  obtain ⟨c, rest, hc, -, hhead⟩ := h.type.head
  obtain ⟨n, hn, -⟩ := Text.exists_cells_cons c rest
  rw [← hc] at hn
  exact ⟨c, by rw [h.cells_eq, hn]; rfl, hhead⟩

/-- A parameter begins with no blank, no attribute and no mark. -/
theorem head_ne {c : Char} (hc : (Text.cells p.render.toList).head? = some c) :
    isLayoutBlank c = false ∧ c ≠ '[' ∧ c ≠ '=' ∧ c ≠ '*' := by
  obtain ⟨d, hd, hident | rfl⟩ := h.head
  · obtain rfl := Option.some.inj (hd.symm.trans hc)
    refine ⟨isLayoutBlank_eq_false_of_isIdentCell hident, ?_, ?_, ?_⟩ <;> rintro rfl <;>
      exact absurd hident (by decide)
  · obtain rfl := Option.some.inj (hd.symm.trans hc)
    decide

theorem black : ∃ c ∈ Text.cells p.render.toList, isWhite c = false := by
  obtain ⟨c, hc, hwhite⟩ := h.type.legible.last
  refine ⟨c, ?_, hwhite⟩
  rw [h.cells_eq]
  exact List.mem_append_left _ (Text.mem_cells.mpr (List.mem_of_getLast? hc))

theorem closed : Code.stackAfter [] (Text.cells p.render.toList) = some [] := by
  rw [h.cells_eq, Code.stackAfter_append, h.type.closed_cells, Option.bind_some]
  exact Code.stackAfter_of_isInert (List.forall_mem_cons.mpr ⟨by decide, fun c hc =>
    Code.isInert_of_isIdentCell (h.ident_cells c hc)⟩) []

theorem whole : Code.Whole p.render.toList := by
  have hrender : p.render.toList = p.type.render.toList ++ (' ' :: p.name.toList) := by
    simp [Parameter.render, h.modifiers, h.default, renderModifiers, concat, String.toList_append]
  rw [hrender]
  exact h.type.typeText.whole.append (Code.whole_of_ident h.ident).space (.inl (by simp))

/-- A written parameter is found where it stands. -/
theorem parameter?_eq {code : Code} {r : Range}
    (hr : code.Stands r (Text.cells p.render.toList)) :
    ∃ l, code.parameter? r = some l ∧ l.Tells code p := by
  have hstart : code.skipAttributes r.start r.stop = r.start := by
    obtain ⟨c, hc, -⟩ := h.head
    obtain ⟨hblank, hbracket, -⟩ := h.head_ne hc
    obtain ⟨rest, hrest⟩ := List.head?_eq_some_iff.mp hc
    rw [Code.skipAttributes, hr.stop, hr.shows.window_self, hrest, Code.attributesFrom]
    simp [hbracket, hblank]
  have hmods : code.modifiers parameterModifiers r.start r.stop = ([], r.start) := by
    rw [Code.modifiers, hr.stop, hr.shows.window_self, h.cells_eq]
    exact Code.modifiersFrom_type h.type h.leads _ _ _
  have hassign : code.assignment? r.start r.stop = none := by
    refine Code.assignment?_of_not_mem ?_
    rw [hr.stop, hr.shows.window_self]
    exact (Code.not_mem_of_stackAfter h.closed).2.2.2
  have hshows := hr.shows
  rw [h.cells_eq] at hshows
  obtain ⟨c, hc, hwhite⟩ := h.type.legible.last
  have hlast : ∃ c, (Text.cells p.type.render.toList).getLast? = some c ∧ isWhite c = false :=
    ⟨c, by rw [Text.getLast?_cells, hc],
      hwhite⟩
  have htype := hshows.typeAndName? (i := 0) (Nat.le_refl _)
  rw [Code.typeAndName?_append rfl hlast h.cells_ne_nil h.ident_cells, ← h.cells_eq, Nat.add_zero,
    ← hr.stop] at htype
  refine ⟨{ range := r, modifiers := []
            type := ⟨r.start, r.start + (Text.cells p.type.render.toList).length⟩
            name := ⟨r.start + (Text.cells p.type.render.toList).length + 1,
              r.start + (Text.cells p.type.render.toList).length + 1 +
                (Text.cells p.name.toList).length⟩
            default := none }, ?_, h.modifiers.symm, rfl, ⟨hshows.append_left, rfl⟩,
    ⟨hshows.append_right.append_right (l := [' ']), rfl⟩, Nat.le_refl _, Nat.le_succ _, ?_⟩
  · simp only [Code.parameter?, hstart, hmods, hassign, Option.getD_none, htype]
    simp [Range.shift, Nat.add_assoc]
  · rw [hr.stop, h.cells_eq, List.length_append, List.length_cons]
    simp only
    omega

/-- A written parameter is found between commas, with blanks before it. -/
theorem exists_parameter? {code b : Code} {r : Range} (hb : ∀ c ∈ b, isLayoutBlank c = true)
    (hr : code.Stands r (b ++ Text.cells p.render.toList)) :
    ∃ l, code.parameter? ⟨code.skipBlanks r.start r.stop,
        code.trimBlanks (code.skipBlanks r.start r.stop) r.stop⟩ = some l ∧ l.Tells code p := by
  obtain ⟨last, hlast, hident⟩ := h.last
  obtain ⟨first, hfirst, -⟩ := h.head
  have hblank := (h.head_ne hfirst).1
  have hskip : code.skipBlanks r.start r.stop = r.start + b.length := by
    rw [hr.stop]
    exact Code.skipBlanks_eq hr.shows hb ⟨first, hfirst, hblank⟩
  have hstop : r.stop = r.start + b.length + (Text.cells p.render.toList).length := by
    rw [hr.stop, List.length_append, Nat.add_assoc]
  have htrim : code.trimBlanks (r.start + b.length) r.stop = r.stop := by
    rw [hstop]
    exact Code.trimBlanks_eq hr.shows.append_right
      ⟨last, hlast, isLayoutBlank_eq_false_of_isIdentCell hident⟩
  rw [hskip, htrim]
  exact h.parameter?_eq ⟨hr.shows.append_right, hstop⟩

end Parameter.Legible

/-! Lists of parameters. -/

/-- The cells of added parameters: each stands behind a comma, with blanks around that. -/
def Code.addedCells (s s' : Code) (added : List Parameter) : Code :=
  added.flatMap fun p => s ++ ',' :: (s' ++ Text.cells p.render.toList)

/-- The cells of parameters: each but the first stands behind a comma and a space. -/
theorem cells_renderParameters (p : Parameter) (ps : List Parameter) :
    Text.cells (renderParameters (p :: ps)).toList =
      Text.cells p.render.toList ++ Code.addedCells [] [' '] ps := by
  rw [renderParameters, List.map_cons, joinWith_comma, Text.cells_append, cells_commas,
    Code.addedCells]
  simp only [List.map_map, List.flatMap_map]
  rfl

section

variable {ps : List Parameter} (hps : ∀ p ∈ ps, p.Legible)
include hps

theorem whole_spaced : ∀ l ∈ ps.map fun q => ' ' :: q.render.toList, Code.Whole l := by
  intro l hl
  obtain ⟨q, hq, rfl⟩ := List.mem_map.mp hl
  exact (hps q hq).whole.space

/-- Written parameters close what they open. -/
theorem closed_renderParameters :
    Code.stackAfter [] (Text.cells (renderParameters ps).toList) = some [] := by
  rw [Code.stackAfter_cells]
  cases ps with
  | nil => rfl
  | cons p ps =>
    rw [renderParameters, List.map_cons, joinWith_comma, Code.stackAfter_append,
      (hps p List.mem_cons_self).whole.closed, Option.bind_some, List.map_map]
    exact Code.stackAfter_commas (whole_spaced fun q hq => hps q (List.mem_cons_of_mem _ hq)) []

/-- Written parameters are found between their parentheses. -/
theorem parameters?_renderParameters {code : Code} {opening : Nat}
    (hshows : code.Shows (opening + 1) (Text.cells (renderParameters ps).toList)) :
    ∃ ls, code.parameters? opening
        (opening + 1 + (Text.cells (renderParameters ps).toList).length) = some ls ∧
      List.Forall₂ (fun l p => l.Tells code p) ls ps := by
  rw [Code.parameters?, Code.isWhiteBetween, Code.commaRanges, hshows.window_self]
  cases ps with
  | nil => exact ⟨[], rfl, .nil⟩
  | cons p ps =>
    have hp := hps p List.mem_cons_self
    have hrest := fun q hq => hps q (List.mem_cons_of_mem p hq)
    have hpieces : Code.commaPieces (Text.cells (renderParameters (p :: ps)).toList) =
        Text.cells p.render.toList :: ps.map fun q => ' ' :: Text.cells q.render.toList := by
      rw [Code.commaPieces_cells, renderParameters, List.map_cons, joinWith_comma, List.map_map]
      have := Code.commaPieces_whole hp.whole (whole_spaced hrest)
      rw [show (fun t : String => ' ' :: t.toList) ∘ Parameter.render =
        fun q => ' ' :: q.render.toList from rfl, this, List.map_cons, List.map_map]
      rfl
    have hblack : ((Text.cells (renderParameters (p :: ps)).toList).all isWhite) = false := by
      obtain ⟨c, hc, hwhite⟩ := hp.black
      rw [List.all_eq_false, cells_renderParameters]
      exact ⟨c, List.mem_append_left _ hc, by simp [hwhite]⟩
    have hcells : Code.addedCells [] [' '] ps =
        (ps.map fun q => ' ' :: Text.cells q.render.toList).flatMap (',' :: ·) := by
      rw [Code.addedCells, List.flatMap_map]
      rfl
    rw [hblack, hpieces]
    rw [cells_renderParameters, hcells] at hshows
    refine exists_mapM ?_
    have hstands := Code.stands_spread hshows
    cases hstands with
    | cons hfirst hothers =>
      refine .cons (hp.exists_parameter? (b := []) (by simp) hfirst) ?_
      rw [List.forall₂_map_right_iff] at hothers
      exact forall₂_imp_of_mem hothers fun r q hq hr =>
        (hrest q hq).exists_parameter? (b := [' ']) (by decide) hr

end

end ClassRefactor
