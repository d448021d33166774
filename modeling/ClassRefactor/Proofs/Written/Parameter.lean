import ClassRefactor.Proofs.Code.Spaced
import ClassRefactor.Proofs.Source.Local
import ClassRefactor.Proofs.Tree.Plain

/-!
# Written parameters

What is printed is read from the place where it stands, and a plain parameter is found and read in
the text that it is written as.
-/

namespace ClassRefactor

/-! Reading printed code. -/

theorem Text.read_all (t : Text) : t.read ⟨0, t.size⟩ = .ok t := by
  have hstart : isBoundary t 0 = true := isBoundary_iff.mpr ⟨[], t, rfl, rfl⟩
  have hstop : isBoundary t t.size = true := isBoundary_iff.mpr ⟨t, [], by simp, rfl⟩
  have hslice : t.slice 0 t.size = t := by simpa using slice_append [] t []
  simp [Text.read, hstart, hstop, hslice]

section

variable {code part : Code} {s : Nat} (hcode : Printed code) (h : code.Shows s part)
  (hs : s ≤ code.length)
include hcode h hs

theorem Printed.within : Source.Within ⟨part, part⟩ ⟨code, code⟩ s := by
  obtain ⟨rest, hrest⟩ := h
  have hsplit : code.take s ++ part ++ rest = code := by
    rw [List.append_assoc, hrest, List.take_append_drop]
  have hsize : Text.size (code.take s) = s := by
    rw [Printed.size fun c hc => hcode c (List.mem_of_mem_take hc), List.length_take]
    omega
  have hwithin : Source.Within ⟨part, part⟩ ⟨code.take s ++ part ++ rest,
      code.take s ++ part ++ rest⟩ (Text.size (code.take s)) := Source.within_append rfl
  rwa [hsplit, hsize] at hwithin

theorem Printed.read : Text.read code ⟨s, s + part.length⟩ = .ok part := by
  have hpart : Printed part := fun c hc => hcode c (List.mem_of_mem_drop (h.subset hc))
  have := (hcode.within h hs).text _ _ (Text.read_all part)
  rwa [Range.shift, hpart.size] at this

end

/-- What is found for each element is collected. -/
theorem exists_mapM {α β γ : Type} {f : α → Option β} {R : β → γ → Prop} {as : List α}
    {cs : List γ} (h : List.Forall₂ (fun a c => ∃ b, f a = some b ∧ R b c) as cs) :
    ∃ bs, as.mapM f = some bs ∧ List.Forall₂ R bs cs := by
  induction h with
  | nil => exact ⟨[], rfl, .nil⟩
  | cons hac _ ih =>
    obtain ⟨b, hb, hc⟩ := hac
    obtain ⟨bs, hbs, hcs⟩ := ih
    exact ⟨b :: bs, by simp [hb, hbs], .cons hc hcs⟩

/-- Layouts are collected and read one by one. -/
theorem exists_mapM_read {α β γ : Type} {f : α → Option β} {read : β → Except Fault γ}
    {as : List α} {cs : List γ}
    (h : List.Forall₂ (fun a c => ∃ b, f a = some b ∧ read b = .ok c) as cs) :
    ∃ bs, as.mapM f = some bs ∧ bs.mapM read = .ok cs := by
  obtain ⟨bs, hbs, hread⟩ := exists_mapM h
  exact ⟨bs, hbs, mapM_eq_ok_iff.mpr hread⟩

namespace Code

/-- A run at the end of code stops at a cell that does not belong to it. -/
theorem trailing_run {p : Char → Bool} {l r : Code} {c : Char} (hc : p c = false)
    (hr : ∀ d ∈ r, p d = true) : trailing p (l ++ c :: r) = r.length := by
  rw [trailing, leading, List.reverse_append, List.reverse_cons, List.append_assoc,
    List.singleton_append, List.takeWhile_append_of_pos (by simpa using hr),
    List.takeWhile_cons_of_neg (by simp [hc])]
  simp

theorem trailing_all {p : Char → Bool} {l : Code} (h : ∀ c ∈ l, p c = true) :
    trailing p l = l.length := by
  rw [trailing, leading, List.takeWhile_eq_self_iff.mpr (by simpa using h), List.length_reverse]

theorem window_all (code : Code) : code.window 0 code.length = code := by
  simp [window]

/-- No blanks are trimmed from code that ends with something else. -/
theorem trimBlanks_eq {code part : Code} {s : Nat} (h : code.Shows s part)
    (hlast : ∃ c, part.getLast? = some c ∧ isLayoutBlank c = false) :
    code.trimBlanks s (s + part.length) = s + part.length := by
  obtain ⟨c, hc, hblank⟩ := hlast
  obtain ⟨init, rfl⟩ := List.getLast?_eq_some_iff.mp hc
  rw [trimBlanks, h.window_self, trailing_run hblank (by simp)]
  rfl

theorem skipBlanks_eq {code b part : Code} {s : Nat} (h : code.Shows s (b ++ part))
    (hb : ∀ c ∈ b, isLayoutBlank c = true)
    (hhead : ∃ c, part.head? = some c ∧ isLayoutBlank c = false) :
    code.skipBlanks s (s + (b ++ part).length) = s + b.length := by
  obtain ⟨c, hc, hblank⟩ := hhead
  obtain ⟨tail, rfl⟩ := List.head?_eq_some_iff.mp hc
  rw [skipBlanks, h.window_self, leading, List.takeWhile_append_of_pos hb,
    List.takeWhile_cons_of_neg (by simp [hblank])]
  simp

/-- A type and a name are told apart. -/
theorem typeAndName?_append {code ty nm : Code} (hcode : code = ty ++ ' ' :: nm)
    (hty : ∃ c, ty.getLast? = some c ∧ isWhite c = false) (hne : nm ≠ [])
    (hnm : ∀ c ∈ nm, isIdentCell c = true) :
    code.typeAndName? 0 code.length =
      some (⟨0, ty.length⟩, ⟨ty.length + 1, ty.length + 1 + nm.length⟩) := by
  obtain ⟨c, hc, hwhite⟩ := hty
  obtain ⟨init, rfl⟩ := List.getLast?_eq_some_iff.mp hc
  have hpos := List.length_pos_iff.mpr hne
  have hlength : code.length = (init ++ [c]).length + 1 + nm.length := by
    rw [hcode]
    simp only [List.length_append, List.length_cons, List.length_nil]
    omega
  have htrim : code.trimBlanks 0 code.length = code.length := by
    have hshows : code.Shows 0 code := List.prefix_rfl
    have := trimBlanks_eq hshows ⟨nm.getLast hne, ?_,
      isLayoutBlank_eq_false_of_isIdentCell (hnm _ (List.getLast_mem hne))⟩
    · simpa using this
    · rw [hcode, List.getLast?_append_of_ne_nil _ (by simp), List.getLast?_cons_of_ne_nil hne]
      exact List.getLast?_eq_some_getLast hne
  have hname : trailing isIdentCell (code.window 0 code.length) = nm.length := by
    rw [window_all, hcode]
    exact trailing_run (by decide) hnm
  have htype : code.window 0 (code.length - nm.length) = init ++ c :: [' '] := by
    have hsplit : code = (init ++ c :: [' ']) ++ nm := by simp [hcode]
    rw [window, List.drop_zero, hlength, hsplit, Nat.sub_zero, Nat.add_sub_cancel,
      List.take_left' (by simp)]
  have hwhites : trailing isWhite (init ++ c :: [' ']) = 1 := trailing_run hwhite (by decide)
  simp only [typeAndName?, htrim, hname, htype, hwhites]
  have hstart : code.length - nm.length = (init ++ [c]).length + 1 := by omega
  have hne1 : ((init ++ [c]).length + 1 == code.length) = false :=
    beq_eq_false_iff_ne.mpr (by omega)
  have hne2 : ((init ++ [c]).length == 0) = false := by simp
  rw [hstart, hne1, Nat.add_sub_cancel, hne2, hlength]
  rfl

theorem bodyStartFrom_blanks {code b : Code} (hb : ∀ c ∈ b, isLayoutBlank c = true)
    (stop pos : Nat) (rest : Code) :
    code.bodyStartFrom stop 0 pos (b ++ '{' :: rest) = some (pos + b.length) := by
  induction b generalizing pos with
  | nil => rfl
  | cons c b ih =>
    have hinert := isInert_of_isWhite (isWhite_of_isLayoutBlank (hb c List.mem_cons_self))
    simp only [isInert, Bool.and_eq_true, bne_iff_ne] at hinert
    rw [List.cons_append, bodyStartFrom]
    simp only [beq_iff_eq, hinert, Bool.or_eq_true, Bool.and_eq_true, false_and, or_false,
      ↓reduceIte]
    rw [ih (fun d hd => hb d (List.mem_cons_of_mem _ hd)), List.length_cons]
    congr 1
    omega

/-- Nothing is skipped before an identifier. -/
theorem skipAttributes_ident {code : Code} (h : ∃ c, code.head? = some c ∧ isIdentCell c = true) :
    code.skipAttributes 0 code.length = 0 := by
  obtain ⟨c, hc, hident⟩ := h
  obtain ⟨rest, rfl⟩ := List.head?_eq_some_iff.mp hc
  have hbracket : c ≠ '[' := by rintro rfl; exact absurd hident (by decide)
  rw [skipAttributes, window_all, attributesFrom]
  simp [hbracket, isLayoutBlank_eq_false_of_isIdentCell hident]

end Code

/-- What a plain type begins with is no modifier. -/
theorem TypeRef.Plain.modifiersFrom {t : TypeRef} (h : t.Plain) {known : List String}
    (hknown : ∀ k ∈ known, k ∈ reservedWords) (rest : Code) (wordStart pos : Nat) :
    Code.modifiersFrom known [] wordStart pos (t.render.toList ++ ' ' :: rest) = ([], pos) := by
  cases h with
  | @mk name args hname hargs =>
    cases args with
    | nil =>
      rw [TypeRef.render_bare]
      refine Code.modifiersFrom_unknown hname.ident hname.ne_nil (hname.known?_eq_none hknown)
        ?_ _ _
      rintro c hc
      rw [← Option.some.inj hc]
      decide
    | cons a as =>
      rw [TypeRef.render_generic, List.append_assoc, List.cons_append]
      refine Code.modifiersFrom_unknown hname.ident hname.ne_nil (hname.known?_eq_none hknown)
        ?_ _ _
      rintro c hc
      rw [← Option.some.inj hc]
      decide

/-- A plain type begins with an identifier. -/
theorem TypeRef.Plain.head {t : TypeRef} (h : t.Plain) (rest : Code) :
    ∃ c, (t.render.toList ++ rest).head? = some c ∧ isIdentCell c = true := by
  cases h with
  | @mk name args hname hargs =>
    cases args with
    | nil =>
      rw [TypeRef.render_bare]
      exact hname.head_ident rest
    | cons a as =>
      rw [TypeRef.render_generic, List.append_assoc]
      exact hname.head_ident _

/-- A plain type is read back. -/
theorem TypeRef.Plain.parse {t : TypeRef} (h : t.Plain) : TypeRef.parse t.render.toList = t := by
  exact h.wellFormed.legible.parse_render

/-- A type and a name after it are told apart and read. -/
theorem typeAndName_read {code : Code} {s : Nat} {type : TypeRef} {name : String}
    (hcode : Printed code) (htype : type.Plain) (hname : PlainName name)
    (h : code.Shows s (type.render.toList ++ ' ' :: name.toList)) :
    code.assignment? s (s + (type.render.toList ++ ' ' :: name.toList).length) = none ∧
    ∃ t n, code.typeAndName? s (s + (type.render.toList ++ ' ' :: name.toList).length) =
        some (t, n) ∧
      Source.type ⟨code, code⟩ t = .ok type ∧ Source.name ⟨code, code⟩ n = .ok name := by
  have hno : '=' ∉ type.render.toList ++ ' ' :: name.toList := by
    have htype := (Code.not_mem_of_stackAfter htype.wellFormed.typeText.whole.closed).2.2.2
    have hmem : '=' ∉ name.toList := fun hmem => absurd (hname.ident _ hmem) (by decide)
    simp [htype, hmem]
  have hle := h.length_le (by simp)
  have hright : code.Shows (s + type.render.toList.length + 1) name.toList :=
    h.append_right.append_right (l := [' '])
  have hnameLe := hright.length_le hname.ne_nil
  refine ⟨Code.assignment?_of_not_mem (by rwa [h.window_self]),
    ⟨s, s + type.render.toList.length⟩, ⟨s + type.render.toList.length + 1,
      s + type.render.toList.length + 1 + name.toList.length⟩, ?_, ?_, ?_⟩
  · have hlocal := h.typeAndName? (i := 0) (Nat.le_refl _)
    rw [Code.typeAndName?_append rfl htype.wellFormed.legible.last hname.ne_nil hname.ident] at hlocal
    simpa [Range.shift, Nat.add_assoc] using hlocal
  · have hread := hcode.read h.append_left (by omega)
    simp [Source.type, hread, htype.parse, bind, Except.bind, pure, Except.pure]
  · have hread := hcode.read hright (by omega)
    simp [Source.name, hread, bind, Except.bind, pure, Except.pure]

/-- Written modifiers are printed. -/
theorem printed_renderModifiers {known ms : List String}
    (hknown : ∀ k ∈ known, ∀ c ∈ k.toList, isPrinted c = true) (hms : ∀ m ∈ ms, m ∈ known) :
    Printed (renderModifiers ms).toList := by
  induction ms with
  | nil => simp [Printed, renderModifiers, concat]
  | cons m ms ih =>
    rw [Code.renderModifiers_cons]
    exact Printed.append (hknown m (hms m List.mem_cons_self))
      ((ih fun n hn => hms n (List.mem_cons_of_mem _ hn)).cons (by decide))

/-! Parameters. -/

namespace Parameter.Plain

variable {p : Parameter} (h : p.Plain)
include h

theorem render_eq : p.render.toList =
    (renderModifiers p.modifiers).toList ++
      (p.type.render.toList ++ ' ' :: p.name.toList) := by
  simp [Parameter.render, h.default, String.toList_append]

/-- A written parameter is found and read. -/
theorem read {code : Code} (hcode : code = p.render.toList) (hprinted : Printed code) :
    ∃ layout, code.parameter? ⟨0, code.length⟩ = some layout ∧
      layout.read ⟨code, code⟩ = .ok p := by
  rw [h.render_eq] at hcode
  have hknown := Code.known_parameterModifiers
  have hhead : ∃ c, code.head? = some c ∧ isIdentCell c = true := by
    rw [hcode]
    exact hknown.head h.modifiers (h.type.head _)
  have hmods : code.modifiers parameterModifiers 0 code.length =
      (p.modifiers, (renderModifiers p.modifiers).toList.length) := by
    rw [Code.modifiers, Code.window_all, hcode]
    simpa using hknown.modifiersFrom h.modifiers (h.type.modifiersFrom (by decide) _) 0 0
  generalize (renderModifiers p.modifiers).toList = mods at hcode hmods
  -- What follows the modifiers is a type and a name.
  have hlength : code.length =
      mods.length + (p.type.render.toList ++ ' ' :: p.name.toList).length := by
    rw [hcode, List.length_append]
  have hshows : code.Shows mods.length (p.type.render.toList ++ ' ' :: p.name.toList) := by
    rw [hcode]
    exact Code.shows_right _ _
  obtain ⟨hassign, t, n, htypeName, htype, hname⟩ :=
    typeAndName_read hprinted h.type h.name hshows
  rw [← hlength] at hassign htypeName
  refine ⟨{ range := ⟨0, code.length⟩, modifiers := p.modifiers, type := t, name := n
            default := none }, ?_, ?_⟩
  · simp [Code.parameter?, Code.skipAttributes_ident hhead, hmods, hassign, htypeName]
  · obtain ⟨modifiers, type, name, default⟩ := p
    have hdefault := h.default
    simp only at hdefault
    subst hdefault
    simp [ParameterLayout.read, Range.checked, Source.optional, htype, hname, bind, Except.bind,
      pure, Except.pure]

theorem whole : Code.Whole p.render.toList := by
  rw [h.render_eq]
  exact Code.known_parameterModifiers.whole h.modifiers
    (h.type.wellFormed.typeText.whole.append (Code.whole_of_ident h.name.ident).space
      (.inl (by simp)))

theorem last : ∃ c, p.render.toList.getLast? = some c ∧ isPlainCell c = true := by
  refine ⟨p.name.toList.getLast h.name.ne_nil, ?_, h.name.cells _ (List.getLast_mem _)⟩
  rw [h.render_eq, List.getLast?_append_of_ne_nil _ (by simp),
    List.getLast?_append_of_ne_nil _ (by simp), List.getLast?_cons_of_ne_nil h.name.ne_nil]
  exact List.getLast?_eq_some_getLast h.name.ne_nil

theorem undeclared : Code.Undeclared p.render.toList := by
  rw [h.render_eq]
  exact Code.known_parameterModifiers.undeclared h.modifiers (by decide)
    (h.type.undeclared.split (by decide) h.name.undeclared)

theorem printed : Printed p.render.toList := by
  rw [h.render_eq]
  exact (printed_renderModifiers (by decide) h.modifiers).append
    (h.type.printed.append (h.name.printed.cons (by decide)))

/-- A parameter is read where it stands, with blanks before it. -/
theorem read_at {code b : Code} {r : Range} (hcode : Printed code)
    (hb : ∀ c ∈ b, isLayoutBlank c = true) (hr : code.Stands r (b ++ p.render.toList)) :
    ∃ layout, code.parameter? ⟨code.skipBlanks r.start r.stop,
        code.trimBlanks (code.skipBlanks r.start r.stop) r.stop⟩ = some layout ∧
      layout.read ⟨code, code⟩ = .ok p := by
  obtain ⟨last, hlast, hplain⟩ := h.last
  have hident := isIdentCell_of_isPlainCell hplain
  have hne : p.render.toList ≠ [] := by rintro hnil; rw [hnil] at hlast; cases hlast
  have hhead : ∃ c, p.render.toList.head? = some c ∧ isLayoutBlank c = false := by
    rw [h.render_eq]
    obtain ⟨c, hc, hident⟩ := Code.known_parameterModifiers.head h.modifiers
      (h.type.head (' ' :: p.name.toList))
    exact ⟨c, hc, isLayoutBlank_eq_false_of_isIdentCell hident⟩
  have hskip : code.skipBlanks r.start r.stop = r.start + b.length := by
    rw [hr.stop]
    exact Code.skipBlanks_eq hr.shows hb hhead
  have hshows := hr.shows.append_right
  have hstop : r.stop = r.start + b.length + p.render.toList.length := by
    rw [hr.stop, List.length_append, Nat.add_assoc]
  have htrim : code.trimBlanks (r.start + b.length) r.stop = r.stop := by
    rw [hstop]
    exact Code.trimBlanks_eq hshows ⟨last, hlast, isLayoutBlank_eq_false_of_isIdentCell hident⟩
  have hsealed : code.Sealed (r.start + b.length + p.render.toList.length) := by
    rw [← hstop]
    refine hr.sealed ⟨last, ?_, by rintro rfl; exact absurd hident (by decide)⟩
    rw [List.getLast?_append_of_ne_nil _ hne, hlast]
  have hle := hshows.length_le hne
  have hpart : Printed p.render.toList := fun c hc =>
    hcode c (List.mem_of_mem_drop (hshows.subset hc))
  obtain ⟨layout, hlayout, hread⟩ := h.read rfl hpart
  refine ⟨layout.shift (r.start + b.length), ?_,
    (hcode.within hshows (by omega)).parameter layout p hread⟩
  rw [hskip, htrim, hstop]
  have := hshows.parameter? hsealed (r := ⟨0, p.render.toList.length⟩) (Nat.le_refl _)
  rw [hlayout] at this
  simpa [Range.shift] using this

end Parameter.Plain

theorem printed_commas {ls : List Code} (h : ∀ l ∈ ls, Printed l) :
    Printed (ls.flatMap (',' :: ·)) := by
  intro c hc
  obtain ⟨l, hl, hc⟩ := List.mem_flatMap.mp hc
  exact (h l hl).cons (by decide) c hc

theorem joinWith_comma (s : String) (ss : List String) :
    (joinWith ", " (s :: ss)).toList =
      s.toList ++ (ss.map fun t => ' ' :: t.toList).flatMap (',' :: ·) := by
  induction ss generalizing s with
  | nil => simp [joinWith]
  | cons t ss ih => simp [joinWith, ih, String.toList_append]

section

variable {ps : List Parameter} (hps : ∀ p ∈ ps, p.Plain)
include hps

theorem stackAfter_renderParameters :
    Code.stackAfter [] (renderParameters ps).toList = some [] := by
  cases ps with
  | nil => rfl
  | cons p ps =>
    rw [renderParameters, List.map_cons, joinWith_comma, Code.stackAfter_append,
      (hps p List.mem_cons_self).whole.closed, Option.bind_some]
    refine Code.stackAfter_commas (fun l hl => ?_) []
    simp only [List.map_map, List.mem_map, Function.comp_apply] at hl
    obtain ⟨q, hq, rfl⟩ := hl
    exact (hps q (List.mem_cons_of_mem _ hq)).whole.space

theorem undeclared_renderParameters : Code.Undeclared (renderParameters ps).toList := by
  cases ps with
  | nil => exact Code.undeclared_nil
  | cons p ps =>
    rw [renderParameters, List.map_cons, joinWith_comma]
    refine Code.undeclared_commas (fun l hl => ?_) (hps p List.mem_cons_self).undeclared
    simp only [List.map_map, List.mem_map, Function.comp_apply] at hl
    obtain ⟨q, hq, rfl⟩ := hl
    exact Code.undeclared_nil.split (by decide) (hps q (List.mem_cons_of_mem _ hq)).undeclared

theorem printed_renderParameters : Printed (renderParameters ps).toList := by
  cases ps with
  | nil => simp [Printed, renderParameters, joinWith]
  | cons p ps =>
    rw [renderParameters, List.map_cons, joinWith_comma]
    refine (hps p List.mem_cons_self).printed.append (printed_commas fun l hl => ?_)
    simp only [List.map_map, List.mem_map, Function.comp_apply] at hl
    obtain ⟨q, hq, rfl⟩ := hl
    exact (hps q (List.mem_cons_of_mem _ hq)).printed.cons (by decide)

/-- Written parameters are found and read between their parentheses. -/
theorem parameters_read {code : Code} {opening : Nat} (hcode : Printed code)
    (hshows : code.Shows (opening + 1) (renderParameters ps).toList) :
    ∃ layouts,
      code.parameters? opening (opening + 1 + (renderParameters ps).toList.length) = some layouts ∧
      layouts.mapM (ParameterLayout.read ⟨code, code⟩) = .ok ps := by
  rw [Code.parameters?, Code.isWhiteBetween, Code.commaRanges, hshows.window_self]
  cases ps with
  | nil => exact ⟨[], rfl, rfl⟩
  | cons p ps =>
    have hp := hps p List.mem_cons_self
    have hrest := fun q hq => hps q (List.mem_cons_of_mem p hq)
    rw [renderParameters, List.map_cons, joinWith_comma, List.map_map] at hshows ⊢
    have hblack : ∃ c ∈ p.render.toList, isWhite c = false := by
      obtain ⟨c, hc, hplain⟩ := hp.last
      exact ⟨c, List.mem_of_getLast? hc, not_isWhite_of_isPlainCell hplain⟩
    have hwhite : ((p.render.toList ++ (ps.map ((fun t => ' ' :: t.toList) ∘
        Parameter.render)).flatMap (',' :: ·)).all isWhite) = false := by
      obtain ⟨c, hc, hcw⟩ := hblack
      rw [List.all_eq_false]
      exact ⟨c, List.mem_append_left _ hc, by simp [hcw]⟩
    have hwholes : ∀ l ∈ ps.map ((fun t => ' ' :: t.toList) ∘ Parameter.render), Code.Whole l := by
      intro l hl
      obtain ⟨q, hq, rfl⟩ := List.mem_map.mp hl
      exact (hrest q hq).whole.space
    rw [hwhite, Code.commaPieces_whole hp.whole hwholes]
    refine exists_mapM_read ?_
    have hstands := Code.stands_spread hshows
    cases hstands with
    | cons hfirst hothers =>
      refine .cons (hp.read_at (b := []) hcode (by simp) hfirst) ?_
      rw [List.forall₂_map_right_iff] at hothers
      exact forall₂_imp_of_mem hothers fun r q hq hr =>
        (hrest q hq).read_at (b := [' ']) hcode (by decide) hr

end

end ClassRefactor
