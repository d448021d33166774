import Mathlib.Data.List.TakeWhile
import ClassRefactor.Proofs.Guarded.Segment
import ClassRefactor.Proofs.Guarded.Type
import ClassRefactor.Proofs.Source.Local

/-!
# Guarded reading of fields and parameters

Layouts are found and read in one go: what has been read before a declaration turns out to be no
field, or a parameter list none, has been read all the same. An answer goes with a layout if it is
that layout together with the tree that is read from it.
-/

namespace ClassRefactor.Guarded

/-- A reading of the source; a range that fails its check is a breach. -/
def lift {α : Type} (x : Except Fault α) : Guarded α := x.mapError .range

theorem lift_eq {α : Type} {x : Except Fault α} {a : α} (h : x = .ok a) : lift x = .ok a := by
  rw [h]
  rfl

/-- Reads the type in a range. -/
def typeAt (s : Source) (r : Range) : Guarded TypeRef := do typeRef (← cut s.text r)

theorem typeAt_eq {s : Source} {r : Range} {type : TypeRef} (h : s.type r = .ok type) :
    typeAt s r = .ok type := by
  obtain ⟨t, ht, hparse⟩ := bind_eq_ok_iff.mp h
  rw [typeAt, cut_eq ht, ok_bind, typeRef_eq]
  exact congrArg Except.ok (Except.ok.inj hparse)

/-- An answer that goes with a layout: that layout, and the tree that is read from it. -/
def Answers {L T : Type} (read : L → Except Fault T) : Option L → Option (L × T) → Prop :=
  Option.Rel fun layout p => p.1 = layout ∧ read layout = .ok p.2

/-- Answers for all of a list, unless there is none for one of its elements. -/
def collect {α β : Type} (f : α → Guarded (Option β)) : List α → Guarded (Option (List β))
  | [] => return some []
  | a :: as => do
    match ← f a with
    | none => return none
    | some b =>
      match ← collect f as with
      | none => return none
      | some bs => return some (b :: bs)

theorem collect_spec {α L T : Type} {f : α → Guarded (Option (L × T))} {g : α → Option L}
    {read : L → Except Fault T} {as : List α}
    (h : ∀ a ∈ as, ∃ o, f a = .ok o ∧ Answers read (g a) o) :
    ∃ o, collect f as = .ok o ∧ Option.Rel (fun layouts ps => ps.map Prod.fst = layouts ∧
      layouts.mapM read = .ok (ps.map Prod.snd)) (as.mapM g) o := by
  induction as with
  | nil => exact ⟨some [], rfl, .some ⟨rfl, rfl⟩⟩
  | cons a as ih =>
    obtain ⟨o, ho, hanswer⟩ := h a List.mem_cons_self
    obtain ⟨os, hos, hrest⟩ := ih fun b hb => h b (List.mem_cons_of_mem _ hb)
    rw [collect, ho, ok_bind, List.mapM_cons]
    generalize g a = first at hanswer
    generalize as.mapM g = rest at hrest
    cases hanswer with
    | none => exact ⟨none, rfl, .none⟩
    | @some layout p hp =>
      simp only [hos, ok_bind]
      cases hrest with
      | none => exact ⟨none, rfl, .none⟩
      | @some layouts ps hps =>
        refine ⟨some (p :: ps), rfl, .some ⟨by rw [List.map_cons, hp.1, hps.1], ?_⟩⟩
        rw [List.mapM_cons, hp.2, hps.2]
        rfl

/-- A part of the source that may be missing. -/
def initializer (s : Source) (r : Option Range) : Guarded (Option OpaqueText) :=
  lift (Source.optional s.opaqueText r)

/-- What follows an assignment can be read. -/
theorem exists_initializer {s : Source} (hs : s.Sound) (start : Nat) {stop : Nat}
    (hstop : Code.Seam s.masked.cells stop) :
    ∃ o, Source.optional s.opaqueText ((Code.assignment? s.masked.cells start stop).map fun p =>
        ⟨p + 1, stop⟩) = .ok o ∧
      initializer s ((Code.assignment? s.masked.cells start stop).map fun p => ⟨p + 1, stop⟩) =
        .ok o := by
  obtain ⟨o, ho⟩ := Source.exists_optional fun q hq =>
    ⟨_, Source.opaqueText_eq hs (Code.fitsIfAny_assigned hstop q hq)⟩
  exact ⟨o, ho, lift_eq ho⟩

/-- A type and a name, each with the range that it was read from. -/
structure Declared where
  type : Range
  typeTree : TypeRef
  name : Range
  nameText : String

/-- Reads the type and the name between two positions. -/
def declared (s : Source) (start stop : Nat) : Guarded (Option Declared) := do
  match ← typeAndName (← cut s.masked ⟨start, stop⟩) with
  | none => return none
  | some split =>
    let type : Range := ⟨start, start + split.typeSize⟩
    let typeTree ← typeAt s type
    return some { type, typeTree, name := split.name.shift start, nameText := .ofList split.text }

theorem slice_slice {t : Text} {start stop i j : Nat} (hstart : t.isBoundary start = true)
    (hstop : t.isBoundary stop = true) (hi : t.isBoundary (start + i) = true)
    (hj : t.isBoundary (start + j) = true) (hij : i ≤ j) (hle : start + j ≤ stop) :
    (t.slice start stop).slice i j = t.slice (start + i) (start + j) := by
  obtain ⟨a, u, rfl, rfl⟩ := Text.isBoundary_iff.mp hstart
  obtain ⟨k, rfl⟩ := Nat.exists_eq_add_of_le (Nat.le_trans (Nat.le_add_right ..) hle)
  rw [Text.isBoundary_append_right] at hstop hi hj
  obtain ⟨x, y, z, rfl, rfl, rfl⟩ := Text.split_at_boundaries hi hj hij
  have hsize : x.size + y.size = Text.size (x ++ y) := by simp
  obtain ⟨m, rfl⟩ := Nat.exists_eq_add_of_le (Nat.add_le_add_iff_left.mp hle)
  rw [hsize, Text.isBoundary_append_right] at hstop
  obtain ⟨z, w, rfl, rfl⟩ := Text.isBoundary_iff.mp hstop
  have houter := Text.slice_append a (x ++ y ++ z) w
  have hinner := Text.slice_append (a ++ x) y (z ++ w)
  simp only [Text.size_append, List.append_assoc, Nat.add_assoc] at houter hinner ⊢
  rw [houter, hinner]
  simpa using Text.slice_append x y z

/-- The type and the name that are declared between two positions. -/
theorem declared_spec {s : Source} (hs : s.Sound) {start stop : Nat} (hle : start ≤ stop)
    (hstart : Code.Seam s.masked.cells start) (hstop : Code.Seam s.masked.cells stop) :
    ∃ o, declared s start stop = .ok o ∧ Option.Rel (fun p d => d.type = p.1 ∧ d.name = p.2 ∧
      s.type p.1 = .ok d.typeTree ∧ s.name p.2 = .ok d.nameText)
      (Code.typeAndName? s.masked.cells start stop) o := by
  obtain ⟨hcut, hcells⟩ := cut_of_fits (t := s.masked) (r := ⟨start, stop⟩) ⟨hle, hstart, hstop⟩
  rw [declared, hcut, ok_bind, typeAndName_eq, ok_bind]
  simp only at hcells
  have hsize : (s.masked.slice start stop).size = stop - start := by
    rw [← Text.length_cells, hcells, Code.length_window_of_le hstop.le]
  have hshows : Code.Shows s.masked.cells start (s.masked.slice start stop).cells :=
    hcells ▸ Code.shows_window
  have hshift := hshows.typeAndName? (i := 0) (j := (s.masked.slice start stop).size) (by simp)
  rw [hsize, Nat.add_zero, Nat.add_sub_cancel' hle, ← hsize] at hshift
  rw [hshift]
  cases hsplit : Code.typeAndName? (s.masked.slice start stop).cells 0
      (s.masked.slice start stop).size with
  | none => exact ⟨none, rfl, .none⟩
  | some p =>
    rw [hsplit, Option.map_some] at hshift
    obtain ⟨htype, hname, hts, -, hle1, -, hle2⟩ := Code.typeAndName?_spec hle hstart hstop hshift
    have hrange : (⟨start, start + p.1.stop⟩ : Range) = p.1.shift start :=
      congrArg (Range.mk · _) hts.symm
    have htree := Source.type_eq hs htype
    have htext := Source.name_eq hs hname
    rw [← hrange] at htree
    simp only [Option.map_some, typeAt_eq htree, ok_bind]
    refine ⟨_, rfl, .some ⟨hrange, rfl, hrange ▸ htree, ?_⟩⟩
    rw [htext, slice_slice (Text.isBoundary_of_seam_cells hstart)
      (Text.isBoundary_of_seam_cells hstop) (Text.isBoundary_of_seam_cells hname.2.1)
      (Text.isBoundary_of_seam_cells hname.2.2)
      (Nat.add_le_add_iff_left.mp hname.1) hle2]
    rfl

/-- The end of a declaration that stops at `stop`, without its `;`. -/
def withoutSemicolon (code : Code) (stop : Nat) : Guarded Nat := do
  let last ← minus stop 1
  return if (← fetch code last) == ';' then last else stop

theorem withoutSemicolon_eq {code : Code} {stop : Nat} (hpos : 0 < stop)
    (hstop : stop ≤ code.length) :
    withoutSemicolon code stop = .ok (code.withoutSemicolon stop) := by
  have hc := List.getElem?_eq_getElem (l := code) (i := stop - 1) (by omega)
  rw [withoutSemicolon, minus_eq hpos, ok_bind, fetch_eq hc, ok_bind, Code.withoutSemicolon, hc]
  simp

/-- Reads a further variable of a field declaration. -/
def furtherVariable (s : Source) (piece : Range) :
    Guarded (Option (VariableLayout × FieldVariable)) := do
  let assign ← assignment s.masked.cells piece.start piece.stop
  let text ← cut s.masked ⟨piece.start, assign.getD piece.stop⟩
  if text.trim.isEmpty || !text.trim.cells.all isIdentCell then return none
  else
    let start := piece.start + Code.leading isWhite text.cells
    let initial := assign.map fun p => Range.mk (p + 1) piece.stop
    let initializer ← initializer s initial
    return some ({ name := ⟨start, start + text.trim.size⟩, initializer := initial },
      { name := .ofList text.trim, initializer })

/-- A text is white space, itself without it, and white space. -/
theorem exists_trim_append (t : Text) :
    ∃ front back : Text, t = front ++ t.trim ++ back ∧
      front.size = Code.leading isWhite t.cells := by
  obtain ⟨back, hback, -⟩ := Text.exists_trimEnd_append t.trimStart
  refine ⟨t.takeWhile isWhite, back, ?_, (Text.leading_cells isWhite t).symm⟩
  rw [List.append_assoc, Text.trim, ← hback, Text.trimStart, List.takeWhile_append_dropWhile]

/-- The text between two positions, trimmed, stands in the trimmed range. -/
theorem trimmed_eq {t : Text} {start stop : Nat} (hle : start ≤ stop)
    (hstart : Code.Seam t.cells start) (hstop : Code.Seam t.cells stop) :
    Code.trimmed t.cells start stop =
        ⟨start + Code.leading isWhite (t.slice start stop).cells,
          start + Code.leading isWhite (t.slice start stop).cells +
            (t.slice start stop).trim.size⟩ ∧
      t.slice (Code.trimmed t.cells start stop).start (Code.trimmed t.cells start stop).stop =
        (t.slice start stop).trim := by
  obtain ⟨-, hcells⟩ := cut_of_fits (t := t) (r := ⟨start, stop⟩) ⟨hle, hstart, hstop⟩
  simp only at hcells
  obtain ⟨-, hstop', hfits⟩ := Code.trimmed_spec hle hstart hstop
  have hdrop : (t.slice start stop).trimStart.cells = (Code.window t.cells start stop).drop
      (Code.leading isWhite (Code.window t.cells start stop)) := by
    rw [Text.trimStart, Text.cells_dropWhile, hcells, (window_run t.cells isWhite start stop).2,
      Code.window_drop]
  have hrange : Code.trimmed t.cells start stop =
      ⟨start + Code.leading isWhite (t.slice start stop).cells,
        start + Code.leading isWhite (t.slice start stop).cells +
          (t.slice start stop).trim.size⟩ := by
    rw [Text.trim, Text.size_trimEnd, Text.size_trimStart, hdrop, ← Text.length_cells, hcells]
    rfl
  refine ⟨hrange, ?_⟩
  obtain ⟨front, back, hparts, hfront⟩ := exists_trim_append (t.slice start stop)
  have hslice : (t.slice start stop).slice front.size
      (front.size + (t.slice start stop).trim.size) = (t.slice start stop).trim := by
    have hmiddle := Text.slice_append front (t.slice start stop).trim back
    rwa [← hparts] at hmiddle
  rw [hrange, ← hfront, Nat.add_assoc] at hfits hstop' ⊢
  have hinner := slice_slice (Text.isBoundary_of_seam_cells hstart)
    (Text.isBoundary_of_seam_cells hstop) (Text.isBoundary_of_seam_cells hfits.2.1)
    (Text.isBoundary_of_seam_cells hfits.2.2) (Nat.le_add_right ..) hstop'
  exact hinner.symm.trans hslice

theorem furtherVariable_spec {s : Source} (hs : s.Sound) {piece : Range}
    (hpiece : Code.Fits s.masked.cells piece) :
    ∃ o, furtherVariable s piece = .ok o ∧
      Answers (VariableLayout.read s) (Code.furtherVariable? s.masked.cells piece) o := by
  obtain ⟨hle, hstart, hstop⟩ := hpiece
  obtain ⟨ha1, -, ha3⟩ := Code.assignment?_getD_spec hle hstop
  have hdeclared : Code.Fits s.masked.cells ⟨piece.start,
      (Code.assignment? s.masked.cells piece.start piece.stop).getD piece.stop⟩ :=
    ⟨ha1, hstart, ha3⟩
  obtain ⟨hcut, -⟩ := cut_of_fits hdeclared
  obtain ⟨hrange, hslice⟩ := trimmed_eq ha1 hstart ha3
  obtain ⟨-, -, hname⟩ := Code.trimmed_spec ha1 hstart ha3
  obtain ⟨-, hcells⟩ := cut_of_fits hname
  obtain ⟨o, hread, hinitial⟩ := exists_initializer hs piece.start hstop
  have htext := Source.name_eq hs hname
  rw [hslice] at hcells htext
  rw [furtherVariable, assignment_eq _ hstop.le, ok_bind, hcut, ok_bind, hcells]
  simp only [Code.furtherVariable?]
  generalize (Code.assignment? s.masked.cells piece.start piece.stop).getD piece.stop = stop at *
  have hempty : (s.masked.slice piece.start stop).trim.isEmpty =
      (Code.trimmed s.masked.cells piece.start stop).isEmpty := by
    rw [hrange, Text.isEmpty_eq, Range.isEmpty, Bool.eq_iff_iff]
    simp
  rw [hempty]
  split
  · exact ⟨none, rfl, .none⟩
  · rw [hinitial, ok_bind]
    refine ⟨_, rfl, .some ⟨?_, ?_⟩⟩
    · simp only [hrange]
    · rw [VariableLayout.read, htext, ok_bind, hread]
      rfl

/-- Reads the field declaration between two positions. -/
def field (s : Source) (start stop : Nat) : Guarded (Option (FieldLayout × Field)) := do
  let declStop ← withoutSemicolon s.masked.cells stop
  let (modifiers, declStart) ← modifiers memberModifiers s.masked start declStop
  match ← commaRanges s.masked.cells declStart declStop with
  | [] => return none
  | first :: others =>
    let assign ← assignment s.masked.cells first.start first.stop
    match ← declared s first.start (assign.getD first.stop) with
    | none => return none
    | some d =>
      let initial := assign.map fun p => Range.mk (p + 1) first.stop
      let initializer ← initializer s initial
      match ← collect (furtherVariable s) others with
      | none => return none
      | some others =>
        return some
          ({ modifiers, type := d.type
             declarators := { name := d.name, initializer := initial } :: others.map Prod.fst },
            { modifiers, type := d.typeTree
              declarators := { name := d.nameText, initializer } :: others.map Prod.snd })

theorem field_spec {s : Source} (hs : s.Sound) {start stop : Nat} (hlt : start < stop)
    (hstart : Code.Seam s.masked.cells start) (hstop : Code.Seam s.masked.cells stop) :
    ∃ o, field s start stop = .ok o ∧
      Answers (FieldLayout.read s) (Code.field? s.masked.cells start stop) o := by
  obtain ⟨hd1, -, hd3⟩ := Code.withoutSemicolon_spec hlt hstop
  obtain ⟨-, hm2, hm3⟩ := Code.modifiers_spec memberModifiers hd1 hstart hd3
  have htiles := Code.tiles_commaRanges hm2 hd3.le
  rw [field, withoutSemicolon_eq (Nat.lt_of_le_of_lt (Nat.zero_le _) hlt) hstop.le, ok_bind,
    modifiers_eq memberModifiers hd1 hstart hd3, ok_bind]
  simp only [commaRanges_eq hm2 hd3.le, ok_bind, Code.field?]
  cases hpieces : Code.commaRanges s.masked.cells
      (Code.modifiers memberModifiers s.masked.cells start
        (Code.withoutSemicolon s.masked.cells stop)).2
      (Code.withoutSemicolon s.masked.cells stop) with
  | nil => exact ⟨none, rfl, .none⟩
  | cons first others =>
    rw [hpieces] at htiles
    have hfits : ∀ piece ∈ first :: others, Code.Fits s.masked.cells piece :=
      fun piece hp => ⟨(htiles.mem hp).2.1, htiles.seam hm3 hd3 hp⟩
    obtain ⟨hle, hs1, hs2⟩ := hfits first List.mem_cons_self
    obtain ⟨ha1, -, ha3⟩ := Code.assignment?_getD_spec hle hs2
    obtain ⟨d, hd, hdeclared⟩ := declared_spec hs ha1 hs1 ha3
    obtain ⟨o, hread, hinitial⟩ := exists_initializer hs first.start hs2
    obtain ⟨further, hfurther, hothers⟩ := collect_spec fun piece hp =>
      furtherVariable_spec hs (hfits piece (List.mem_cons_of_mem first hp))
    simp only [assignment_eq _ hs2.le, ok_bind, hd]
    generalize Code.typeAndName? s.masked.cells first.start _ = split at hdeclared
    cases hdeclared with
    | none => exact ⟨none, rfl, .none⟩
    | @some p d hparts =>
      obtain ⟨htype, hname, htree, htext⟩ := hparts
      simp only [hinitial, hfurther, ok_bind]
      generalize others.mapM (Code.furtherVariable? s.masked.cells) = rest at hothers
      cases hothers with
      | none => exact ⟨none, rfl, .none⟩
      | @some layouts ps hps =>
        refine ⟨_, rfl, .some ⟨by rw [htype, hname, hps.1], ?_⟩⟩
        rw [FieldLayout.read, htree, ok_bind, List.mapM_cons, VariableLayout.read, htext, hps.2]
        simp only [ok_bind, hread]
        rfl

/-- Reads the parameter in a range. -/
def parameter (s : Source) (r : Range) : Guarded (Option (ParameterLayout × Parameter)) := do
  let start ← skipAttributes s.masked.cells r.start r.stop
  let (modifiers, declStart) ← modifiers parameterModifiers s.masked start r.stop
  let assign ← assignment s.masked.cells declStart r.stop
  match ← declared s declStart (assign.getD r.stop) with
  | none => return none
  | some d =>
    let initial := assign.map fun p => Range.mk (p + 1) r.stop
    let default ← initializer s initial
    let whole ← range r.start r.stop
    return some
      ({ range := whole, modifiers, type := d.type, name := d.name, default := initial },
        { modifiers, type := d.typeTree, name := d.nameText, default })

theorem parameter_spec {s : Source} (hs : s.Sound) {r : Range} (hr : Code.Fits s.masked.cells r) :
    ∃ o, parameter s r = .ok o ∧
      Answers (ParameterLayout.read s) (Code.parameter? s.masked.cells r) o := by
  obtain ⟨hle, hstart, hstop⟩ := hr
  obtain ⟨-, hs2, hs3⟩ := Code.skipAttributes_spec hle hstart hstop
  obtain ⟨-, hm2, hm3⟩ := Code.modifiers_spec parameterModifiers hs2 hs3 hstop
  obtain ⟨ha1, -, ha3⟩ := Code.assignment?_getD_spec hm2 hstop
  obtain ⟨d, hd, hdeclared⟩ := declared_spec hs ha1 hm3 ha3
  rw [parameter, skipAttributes_eq hstop.le, ok_bind, modifiers_eq parameterModifiers hs2 hs3 hstop,
    ok_bind]
  simp only [Code.parameter?]
  generalize Code.modifiers parameterModifiers s.masked.cells
    (Code.skipAttributes s.masked.cells r.start r.stop) r.stop = found at *
  obtain ⟨modifiers, declStart⟩ := found
  obtain ⟨o, hread, hinitial⟩ := exists_initializer hs declStart hstop
  simp only [assignment_eq _ hstop.le, ok_bind, hd]
  generalize Code.typeAndName? s.masked.cells declStart _ = split at hdeclared
  cases hdeclared with
  | none => exact ⟨none, rfl, .none⟩
  | @some p d hparts =>
    obtain ⟨htype, hname, htree, htext⟩ := hparts
    simp only [hinitial, range_eq hle, ok_bind]
    refine ⟨_, rfl, .some ⟨by rw [htype, hname], ?_⟩⟩
    simp only [ParameterLayout.read, Range.checked, hle, if_true, htree, htext, ok_bind, hread]
    rfl

/-- Reads the parameters between two parentheses. -/
def parameters (s : Source) (opening closing : Nat) :
    Guarded (Option (List (ParameterLayout × Parameter))) := do
  let text ← cut s.masked ⟨opening + 1, closing⟩
  if text.trim.isEmpty then return some []
  else
    collect (fun piece => do
      let start ← skipBlanks s.masked.cells piece.start piece.stop
      let stop ← trimBlanks s.masked.cells start piece.stop
      parameter s ⟨start, stop⟩) (← commaRanges s.masked.cells (opening + 1) closing)

theorem trim_isEmpty (t : Text) : t.trim.isEmpty = t.cells.all isWhite := by
  rw [Bool.eq_iff_iff, List.isEmpty_iff, List.all_eq_true]
  constructor
  · intro h c hc
    have hstrip : t.strip = [] := by rw [← Text.strip_trim, h, Text.strip_nil]
    exact Text.strip_eq_nil_iff.mp hstrip c (Text.mem_cells.mp hc)
  · intro h
    have hstart : t.trimStart = [] :=
      List.dropWhile_eq_nil_iff.mpr fun c hc => h c (Text.mem_cells.mpr hc)
    rw [Text.trim, hstart]
    rfl

theorem parameters_spec {s : Source} (hs : s.Sound) {opening closing : Nat}
    (hlt : opening < closing) (hopen : Code.Seam s.masked.cells (opening + 1))
    (hclose : Code.Seam s.masked.cells closing) :
    ∃ o, parameters s opening closing = .ok o ∧ Option.Rel (fun layouts ps =>
      ps.map Prod.fst = layouts ∧ layouts.mapM (ParameterLayout.read s) = .ok (ps.map Prod.snd))
      (Code.parameters? s.masked.cells opening closing) o := by
  obtain ⟨hcut, hcells⟩ := cut_of_fits (r := ⟨opening + 1, closing⟩) ⟨hlt, hopen, hclose⟩
  rw [parameters, hcut, ok_bind, trim_isEmpty, hcells, Code.parameters?, Code.isWhiteBetween]
  split
  · exact ⟨some [], rfl, .some ⟨rfl, rfl⟩⟩
  · have htiles := Code.tiles_commaRanges hlt hclose.le
    rw [commaRanges_eq hlt hclose.le, ok_bind]
    refine collect_spec fun piece hp => ?_
    obtain ⟨-, hle, -⟩ := htiles.mem hp
    obtain ⟨hp1, hp2⟩ := htiles.seam hopen hclose hp
    obtain ⟨-, hs2, hs3⟩ := Code.skipBlanks_spec hle hp1 hp2
    obtain ⟨ht1, -, ht3⟩ := Code.trimBlanks_spec hs2 hs3 hp2
    rw [skipBlanks_eq hp2.le, ok_bind, trimBlanks_eq hs2 hp2.le, ok_bind]
    exact parameter_spec hs ⟨ht1, hs3, ht3⟩

end ClassRefactor.Guarded
