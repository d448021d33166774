import ClassRefactor.Proofs.Code.Commas
import ClassRefactor.Proofs.Growth.Parameter
import ClassRefactor.Proofs.Layout.Class

/-!
# Lists of parameters that go on

Where nothing is open behind the parameters of a callable, what stands behind a comma is a parameter
more. Parameters that are written there are found behind those that were there.
-/

namespace ClassRefactor

namespace Code

/-- Cells of a text are cut where the text is. -/
theorem tight_cells (stack : List Char) (previous : Option Char) (t : Text) :
    tight stack previous t.cells = tight stack previous t := by
  induction t generalizing stack previous with
  | nil => rfl
  | cons c t ih =>
    by_cases hc : c.utf8Size = 1
    · have hcells : Text.cells (c :: t) = c :: Text.cells t := by simp [hc]
      rw [hcells, tight, tight]
      cases push stack c with
      | none => rfl
      | some next => simp only [Option.any_some, ih]
    · have hne : ∀ d : Char, d.utf8Size = 1 → c ≠ d := fun d hd heq => hc (heq ▸ hd)
      have hpush : ∀ stack, push stack c = some stack := fun stack => by
        refine push_of_isInert ?_ stack
        simp only [isInert, Bool.and_eq_true, bne_iff_ne]
        refine ⟨⟨⟨⟨⟨⟨⟨⟨⟨?_, ?_⟩, ?_⟩, ?_⟩, ?_⟩, ?_⟩, ?_⟩, ?_⟩, ?_⟩, ?_⟩ <;> exact hne _ rfl
      have hstep : ∀ previous (r : Code), tight stack previous (c :: r) = tight stack (some c) r := by
        intro previous r
        rw [tight, hpush]
        simp [hne ',' rfl, hne '<' rfl]
      have hrun : ∀ n (r : Code), tight stack (some c) (List.replicate n c ++ r) =
          tight stack (some c) r := by
        intro n r
        induction n with
        | zero => rfl
        | succ n ihn => rw [List.replicate_succ, List.cons_append, hstep, ihn]
      obtain ⟨n, hn⟩ : ∃ n, c.utf8Size = n + 1 := ⟨c.utf8Size - 1, by have := c.utf8Size_pos; omega⟩
      rw [Text.cells_cons, hn, List.replicate_succ, List.cons_append, hstep, hrun, ih, hstep]

theorem Whole.cells {t : Text} (h : Whole t) : Whole t.cells :=
  ⟨by rw [stackAfter_cells]; exact h.closed, by rw [tight_cells]; exact h.tight⟩

/-- Code that a cut at commas comes out of with nothing open. -/
def Level (l : Code) : Prop :=
  ∃ (init : List Code) (last : Code), ∀ r, commaPieces (l ++ r) = init ++ commaPiecesFrom last 0 0 r

theorem level_window {code : Code} {start stop : Nat} (hle : start ≤ stop)
    (hstop : stop ≤ code.length) (hbrackets : code.bracketsBefore start stop = 0)
    (hangles : code.anglesBefore start stop = 0) : Level (code.window start stop) := by
  have hempty : ([] : Code).head?.any isIdentCell = true ↔
      start < start ∧ code[start - 1]?.any isIdentCell = true := by simp
  obtain ⟨init, last, h⟩ := commaPiecesFrom_seam hstop (Nat.le_refl start) hle rfl hempty
  rw [hbrackets, hangles, bracketsBefore_self, anglesBefore_self] at h
  exact ⟨init, last, h⟩

theorem Whole.level {l : Code} (h : Whole l) : Level l :=
  ⟨[], l.reverse, fun r => by rw [commaPieces, h.commaPiecesFrom, List.nil_append]⟩

theorem commaPiecesFrom_blanks {b : Code} (hb : ∀ c ∈ b, isLayoutBlank c = true) (piece : Code)
    (brackets angles : Nat) (rest : Code) :
    commaPiecesFrom piece brackets angles (b ++ rest) =
      commaPiecesFrom (b.reverse ++ piece) brackets angles rest := by
  induction b generalizing piece with
  | nil => rfl
  | cons c b ih =>
    have hc := isInert_of_isLayoutBlank (hb c List.mem_cons_self)
    have hcomma : (c == ',') = false := by
      rw [beq_eq_false_iff_ne]
      rintro rfl
      exact absurd (hb ',' List.mem_cons_self) (by decide)
    simp only [isInert, Bool.and_eq_true, bne_iff_ne] at hc
    have hbrackets : bracketDepth brackets c = brackets := by simp [bracketDepth, hc]
    have hangles : ∀ previous, angleDepth angles previous c = angles := fun previous => by
      simp [angleDepth, hc]
    rw [List.cons_append, commaPiecesFrom, hcomma, hbrackets, hangles]
    simpa using ih (fun d hd => hb d (List.mem_cons_of_mem _ hd)) (c :: piece)

namespace Level

variable {l r : Code}

theorem blanks (h : Level l) {b : Code} (hb : ∀ c ∈ b, isLayoutBlank c = true) :
    Level (l ++ b) := by
  obtain ⟨init, last, h⟩ := h
  refine ⟨init, b.reverse ++ last, fun r => ?_⟩
  rw [List.append_assoc, h, commaPiecesFrom_blanks hb]

/-- A comma where nothing is open ends a piece. -/
theorem commaPieces_comma (h : Level l) (r : Code) :
    commaPieces (l ++ ',' :: r) = commaPieces l ++ commaPieces r := by
  obtain ⟨init, last, h⟩ := h
  have hl := h []
  rw [List.append_nil] at hl
  rw [h, hl, List.append_assoc]
  rfl

theorem comma (h : Level l) (hr : Level r) : Level (l ++ ',' :: r) := by
  obtain ⟨init, last, hr⟩ := hr
  refine ⟨commaPieces l ++ init, last, fun s => ?_⟩
  rw [List.append_assoc, List.cons_append, h.commaPieces_comma, hr, List.append_assoc]

end Level

theorem trailing_append_all {p : Char → Bool} {l e : Code} (he : ∀ c ∈ e, p c = true) :
    trailing p (l ++ e) = e.length + trailing p l := by
  rw [trailing, trailing, leading, leading, List.reverse_append,
    List.takeWhile_append_of_pos (by simpa using he), List.length_append, List.length_reverse]

theorem parameter?_self (code : Code) (i : Nat) : code.parameter? ⟨i, i⟩ = none := by
  have hempty : code.window i i = [] := window_of_le (Nat.le_refl i)
  simp [parameter?, skipAttributes, modifiers, assignment?, typeAndName?, trimBlanks, hempty,
    attributesFrom, modifiersFrom, assignFrom, trailing, leading]

section

variable {code : Code} {opening stop stop' : Nat}

/-- Blanks behind a piece leave what is read of it as it is. -/
theorem parameter?_blanks {start : Nat} (hle : start ≤ stop) (hstop : stop ≤ stop')
    (hlen : stop' ≤ code.length) (hb : ∀ c ∈ code.window stop stop', isLayoutBlank c = true) :
    code.parameter? ⟨code.skipBlanks start stop',
        code.trimBlanks (code.skipBlanks start stop') stop'⟩ =
      code.parameter? ⟨code.skipBlanks start stop,
        code.trimBlanks (code.skipBlanks start stop) stop⟩ := by
  have hwindow : ∀ i, start ≤ i → i ≤ stop →
      code.window i stop' = code.window i stop ++ code.window stop stop' :=
    fun i _ hi => (window_append_window hi hstop).symm
  have hsize : (code.window start stop).length = stop - start :=
    length_window_of_le (Nat.le_trans hstop hlen)
  have hrest : (code.window stop stop').length = stop' - stop := length_window_of_le hlen
  rcases leading_append_cases isLayoutBlank (code.window start stop) (code.window stop stop') with
    ⟨hlt, heq⟩ | ⟨heq, hall⟩
  · have hskip : code.skipBlanks start stop' = code.skipBlanks start stop := by
      rw [skipBlanks, skipBlanks, hwindow start (Nat.le_refl _) hle, heq]
    have hinside : code.skipBlanks start stop ≤ stop := by
      rw [skipBlanks]
      omega
    have htrim : code.trimBlanks (code.skipBlanks start stop) stop' =
        code.trimBlanks (code.skipBlanks start stop) stop := by
      have hle : start ≤ code.skipBlanks start stop := Nat.le_add_right ..
      rw [trimBlanks, trimBlanks, hwindow _ hle hinside, trailing_append_all hb, hrest]
      omega
    rw [hskip, htrim]
  · have hblanks : leading isLayoutBlank (code.window stop stop') = stop' - stop := by
      rw [leading, List.takeWhile_eq_self_iff.mpr hb, hrest]
    have hskip : code.skipBlanks start stop = stop := by
      rw [skipBlanks, heq]
      omega
    have hskip' : code.skipBlanks start stop' = stop' := by
      rw [skipBlanks, hwindow start (Nat.le_refl _) hle, hall, hblanks]
      omega
    have htrim : ∀ i, code.trimBlanks i i = i := fun i => by
      rw [trimBlanks, window_of_le (Nat.le_refl i)]
      rfl
    rw [hskip, hskip', htrim, htrim, parameter?_self, parameter?_self]

/-- Blanks before the closing parenthesis do not matter. -/
theorem parameters?_blanks (hlt : opening < stop) (hstop : stop ≤ stop') (hlen : stop' ≤ code.length)
    (hb : ∀ c ∈ code.window stop stop', isLayoutBlank c = true) :
    code.parameters? opening stop' = code.parameters? opening stop := by
  have hwindow : code.window (opening + 1) stop' =
      code.window (opening + 1) stop ++ code.window stop stop' :=
    (window_append_window hlt hstop).symm
  have hwhite : code.isWhiteBetween (opening + 1) stop' = code.isWhiteBetween (opening + 1) stop := by
    rw [isWhiteBetween, isWhiteBetween, hwindow, List.all_append,
      List.all_eq_true.mpr fun c hc => isWhite_of_isLayoutBlank (hb c hc), Bool.and_true]
  have hempty : ([] : Code).head?.any isIdentCell = true ↔
      0 < 0 ∧ (code.window (opening + 1) stop)[0 - 1]?.any isIdentCell = true := by simp
  obtain ⟨init, last, h⟩ := commaPiecesFrom_seam (Nat.le_refl _) (Nat.le_refl 0) (Nat.zero_le _)
    (window_all _) hempty
  rw [bracketsBefore_self, anglesBefore_self] at h
  have hold := h []
  have hnew := h (code.window stop stop')
  rw [List.append_nil] at hold
  have hblanks := commaPiecesFrom_blanks hb last
    (bracketsBefore (code.window (opening + 1) stop) 0 (code.window (opening + 1) stop).length)
    (anglesBefore (code.window (opening + 1) stop) 0 (code.window (opening + 1) stop).length) []
  rw [List.append_nil] at hblanks
  rw [hblanks] at hnew
  simp only [commaPiecesFrom, List.reverse_append, List.reverse_reverse] at hold hnew
  have hsum := length_commaPiecesFrom [] 0 0 (code.window (opening + 1) stop)
  rw [hold, length_window_of_le (Nat.le_trans hstop hlen)] at hsum
  simp only [List.flatten_append, List.flatten_cons, List.flatten_nil, List.append_nil,
    List.length_append, List.length_cons, List.length_nil, List.length_reverse] at hsum
  have hlast : (code.window stop stop').length = stop' - stop := length_window_of_le hlen
  rw [parameters?, parameters?, hwhite, commaRanges, commaRanges, hwindow, commaPieces, commaPieces,
    hold, hnew, spread_append, spread_append]
  simp only [spread, List.mapM_append, List.mapM_cons, List.mapM_nil, List.length_append,
    List.length_reverse, hlast]
  have hpiece := @parameter?_blanks code stop stop'
    (opening + 1 + (init.flatten.length + init.length)) (by omega) hstop hlen hb
  have heq : opening + 1 + (init.flatten.length + init.length) + last.length = stop := by omega
  have heq' : opening + 1 + (init.flatten.length + init.length) + (last.length + (stop' - stop)) =
      stop' := by omega
  rw [heq, heq', hpiece]

end

/-- What is left of a piece without the blanks around it. -/
def unpadded (code : Code) (start stop : Nat) : Range :=
  ⟨code.skipBlanks start stop, code.trimBlanks (code.skipBlanks start stop) stop⟩

theorem not_white_of_parameters? {code : Code} {opening stop : Nat} {ps : List ParameterLayout}
    (h : code.parameters? opening stop = some ps) (hne : ps ≠ []) :
    code.isWhiteBetween (opening + 1) stop = false ∧
      (code.commaRanges (opening + 1) stop).mapM
        (fun piece => code.parameter? (code.unpadded piece.start piece.stop)) = some ps := by
  unfold parameters? at h
  split at h
  · exact absurd (Option.some.inj h).symm hne
  · rename_i hwhite
    exact ⟨by simpa using hwhite, h⟩

section

variable {code : Code} {opening stop : Nat} (hlen : stop ≤ code.length) {p : ParameterLayout}
include hlen

/-- A single piece between parentheses. -/
theorem parameters?_single (hlt : opening < stop) (hwhole : Whole (code.window (opening + 1) stop))
    (hblack : code.isWhiteBetween (opening + 1) stop = false)
    (hp : code.parameter? (code.unpadded (opening + 1) stop) = some p) :
    code.parameters? opening stop = some [p] := by
  have hpieces : commaPieces (code.window (opening + 1) stop) = [code.window (opening + 1) stop] := by
    simpa using @commaPieces_whole _ [] hwhole (by simp)
  have hstop : opening + 1 + (code.window (opening + 1) stop).length = stop := by
    rw [length_window_of_le hlen]
    omega
  have hranges : code.commaRanges (opening + 1) stop = [⟨opening + 1, stop⟩] := by
    rw [commaRanges, hpieces]
    simp only [spread, hstop]
  simp only [unpadded] at hp
  simp [parameters?, hblack, hranges, hp]

/-- What stands behind a comma at which nothing is open is one parameter more. -/
theorem parameters?_snoc {comma : Nat} {ps : List ParameterLayout}
    (hlevel : Level (code.window (opening + 1) comma)) (hcomma : code[comma]? = some ',')
    (hlt : opening < comma) (hstop : comma < stop) (hwhole : Whole (code.window (comma + 1) stop))
    (h : code.parameters? opening comma = some ps) (hne : ps ≠ [])
    (hp : code.parameter? (code.unpadded (comma + 1) stop) = some p) :
    code.parameters? opening stop = some (ps ++ [p]) := by
  obtain ⟨hblack, hps⟩ := not_white_of_parameters? h hne
  have hwindow : code.window (opening + 1) stop =
      code.window (opening + 1) comma ++ ',' :: code.window (comma + 1) stop := by
    have hone : code.window comma (comma + 1) = [','] := by simp [window, List.take_one, hcomma]
    rw [← List.singleton_append, ← hone, window_append_window (Nat.le_succ comma) hstop,
      window_append_window hlt (Nat.le_of_lt hstop)]
  have hwhite : code.isWhiteBetween (opening + 1) stop = false := by
    rw [isWhiteBetween, hwindow, List.all_append]
    simp only [isWhiteBetween] at hblack
    rw [hblack, Bool.false_and]
  have hpiece : commaPieces (code.window (comma + 1) stop) = [code.window (comma + 1) stop] := by
    simpa using @commaPieces_whole _ [] hwhole (by simp)
  have hsum := length_commaPiecesFrom [] 0 0 (code.window (opening + 1) comma)
  rw [← commaPieces, length_window_of_le (by omega), List.length_nil] at hsum
  have hstart : opening + 1 +
      ((commaPieces (code.window (opening + 1) comma)).flatten.length +
        (commaPieces (code.window (opening + 1) comma)).length) = comma + 1 := by
    omega
  have hend : comma + 1 + (code.window (comma + 1) stop).length = stop := by
    rw [length_window_of_le hlen]
    omega
  rw [parameters?, hwhite, commaRanges, hwindow, hlevel.commaPieces_comma, hpiece, spread_append,
    hstart, spread, spread, hend, List.mapM_append]
  rw [commaRanges] at hps
  simp only [unpadded] at hp hps
  simp [hps, hp]

end

section

variable {code : Code} {opening closing : Nat} (hlt : opening < closing)
  (hclose : closing ≤ code.length) {ps : List ParameterLayout}
  (hps : code.parameters? opening closing = some ps)
include hlt hclose hps

/-- Each parameter is what is left of a piece between commas. -/
theorem pieces_of_parameters? (hne : ps ≠ []) :
    Tiles code closing (opening + 1) (code.commaRanges (opening + 1) closing) ∧
      List.Forall₂ (fun piece p => p.range = code.unpadded piece.start piece.stop)
        (code.commaRanges (opening + 1) closing) ps :=
  ⟨tiles_commaRanges hlt hclose, (mapM_eq_some_iff.mp (not_white_of_parameters? hps hne).2).imp
    fun _ _ h => parameter?_range h⟩

/-- A parameter ends with a cell that is no blank. -/
theorem solid_of_parameters? {p : ParameterLayout} (hp : p ∈ ps) (hwide : p.range.start < p.range.stop) :
    ∃ c, code[p.range.stop - 1]? = some c ∧ isLayoutBlank c = false := by
  obtain ⟨htiles, hpieces⟩ := pieces_of_parameters? hlt hclose hps (List.ne_nil_of_mem hp)
  obtain ⟨piece, hpiece, hrange⟩ := exists_of_forall₂_right hpieces hp
  obtain ⟨-, hordered, hstop⟩ := htiles.mem hpiece
  have hinside := Nat.le_trans hstop hclose
  have hstart := (run_spec isLayoutBlank hordered hinside).1
  rw [hrange] at hwide ⊢
  exact (runBack_spec isLayoutBlank hstart hinside).2.2 hwide

/-- Between two parameters stand only blanks and a comma. -/
theorem between_of_parameters? {earlier last : ParameterLayout} {rest : List ParameterLayout}
    (hends : ps.reverse = last :: earlier :: rest) {i : Nat} (hi : earlier.range.stop ≤ i)
    (hlast : i < last.range.start) : ∃ c, code[i]? = some c ∧ (isLayoutBlank c = true ∨ c = ',') := by
  have hne : ps ≠ [] := by
    rintro rfl
    cases hends
  obtain ⟨htiles, hpieces⟩ := pieces_of_parameters? hlt hclose hps hne
  generalize code.commaRanges (opening + 1) closing = pieces at htiles hpieces
  have hmem := fun r => htiles.mem (r := r)
  have hchain := htiles.isChain
  rw [← List.forall₂_reverse_iff, hends] at hpieces
  obtain ⟨second, front, hsecond, hfront, hpair⟩ := List.forall₂_cons_right_iff.mp hpieces
  obtain ⟨first, others, hfirst, -, rfl⟩ := List.forall₂_cons_right_iff.mp hfront
  obtain rfl : pieces = others.reverse ++ [first, second] := by
    rw [← List.reverse_reverse pieces, hpair]
    simp
  obtain ⟨-, hordered, hbound⟩ := hmem first (by simp)
  obtain ⟨-, hordered', hbound'⟩ := hmem second (by simp)
  obtain ⟨hcomma, hnext⟩ := List.isChain_pair.mp (List.isChain_append.mp hchain).2.1
  have hinside := Nat.le_trans hbound hclose
  have hinside' := Nat.le_trans hbound' hclose
  rw [hfirst] at hi
  rw [hsecond] at hlast
  rcases Nat.lt_trichotomy i first.stop with hbefore | rfl | hbehind
  · have hstart := (run_spec isLayoutBlank hordered hinside).1
    obtain ⟨c, hc, hblank⟩ := (runBack_spec isLayoutBlank hstart hinside).2.1 i hi hbefore
    exact ⟨c, hc, .inl hblank⟩
  · exact ⟨',', hcomma, .inr rfl⟩
  · obtain ⟨c, hc, hblank⟩ := (run_spec isLayoutBlank hordered' hinside').2.1 i (by omega) hlast
    exact ⟨c, hc, .inl hblank⟩

end

/-- A layout of a parameter between two positions. -/
structure TellsWithin (code : Code) (start stop : Nat) (l : ParameterLayout) (p : Parameter) : Prop
    extends l.Tells code p where
  first : start ≤ l.range.start
  last : l.range.stop ≤ stop

theorem TellsWithin.mono {code : Code} {start stop start' stop' : Nat} {l : ParameterLayout}
    {p : Parameter} (h : TellsWithin code start stop l p) (hstart : start' ≤ start)
    (hstop : stop ≤ stop') : TellsWithin code start' stop' l p :=
  ⟨h.toTells, Nat.le_trans hstart h.first, Nat.le_trans h.last hstop⟩

section

variable {s s' : Code} (hs : ∀ c ∈ s, isLayoutBlank c = true)
  (hs' : ∀ c ∈ s', isLayoutBlank c = true)
include hs'

theorem whole_parameter {p : Parameter} (hp : p.Legible) :
    Whole (s' ++ Text.cells p.render.toList) := by
  have hblanks : Whole s' := whole_of_inert (fun c hc => isInert_of_isLayoutBlank (hs' c hc))
    fun hc => absurd (hs' _ hc) (by decide)
  refine hblanks.append hp.whole.cells (.inr fun c hc => ?_)
  exact Segment.isIdentCell_of_isLayoutBlank (hs' c (List.mem_of_getLast? hc))

include hs in
/-- Added parameters close what they open. -/
theorem closed_addedCells {added : List Parameter} (hadded : ∀ p ∈ added, p.Legible) :
    stackAfter [] (addedCells s s' added) = some [] := by
  induction added with
  | nil => rfl
  | cons p added ih =>
    have hcells : addedCells s s' (p :: added) =
        s ++ (',' :: (s' ++ Text.cells p.render.toList) ++ addedCells s s' added) := by
      simp [addedCells]
    rw [hcells, stackAfter_append,
      stackAfter_of_isInert fun c hc => isInert_of_isLayoutBlank (hs c hc), Option.bind_some,
      List.cons_append, stackAfter_cons (show push [] ',' = some [] from rfl), stackAfter_append,
      (whole_parameter hs' (hadded p List.mem_cons_self)).closed, Option.bind_some]
    exact ih fun q hq => hadded q (List.mem_cons_of_mem _ hq)

variable {code : Code} {opening stop : Nat} (hlt : opening < stop)
include hlt

/-- Between parentheses with only blanks, a parameter may be written. -/
theorem exists_parameters?_single {p : Parameter} (hp : p.Legible)
    (hinside : code.window (opening + 1) stop = s')
    (hshows : code.Shows stop (Text.cells p.render.toList)) :
    ∃ l, code.parameters? opening (stop + (Text.cells p.render.toList).length) = some [l] ∧
      TellsWithin code stop (stop + (Text.cells p.render.toList).length) l p ∧
      Level (code.window (opening + 1) (stop + (Text.cells p.render.toList).length)) := by
  have hle := Nat.le_add_right stop (Text.cells p.render.toList).length
  have hwindow : code.window (opening + 1) (stop + (Text.cells p.render.toList).length) =
      s' ++ Text.cells p.render.toList := by
    rw [← window_append_window hlt hle, hinside, hshows.window_self]
  have hwhole := whole_parameter hs' hp
  obtain ⟨c, hc, hwhite⟩ := hp.black
  have hlen := hshows.length_le (List.ne_nil_of_mem hc)
  have hstands : code.Stands ⟨opening + 1, stop + (Text.cells p.render.toList).length⟩
      (s' ++ Text.cells p.render.toList) := by
    refine ⟨hwindow ▸ shows_window, ?_⟩
    rw [← hwindow, length_window_of_le hlen]
    exact (Nat.add_sub_of_le (Nat.le_trans hlt hle)).symm
  obtain ⟨l, hl, htells⟩ := hp.exists_parameter? hs' hstands
  have hrange := parameter?_range hl
  refine ⟨l, parameters?_single hlen (Nat.lt_of_lt_of_le hlt hle) (hwindow ▸ hwhole) ?_ hl,
    ⟨htells, ?_, ?_⟩, hwindow ▸ hwhole.level⟩
  · rw [isWhiteBetween, hwindow, List.all_eq_false]
    exact ⟨c, List.mem_append_right _ hc, by simp [hwhite]⟩
  · obtain ⟨first, hfirst, -⟩ := hp.head
    have hblank := (hp.head_ne hfirst).1
    have hskip := skipBlanks_eq hstands.shows hs' ⟨first, hfirst, hblank⟩
    rw [← hstands.stop] at hskip
    have hsize : (code.window (opening + 1) stop).length = stop - (opening + 1) :=
      length_window_of_le (Nat.le_trans hle hlen)
    rw [hinside] at hsize
    rw [hrange, hskip]
    simp only
    omega
  · rw [hrange]
    exact Nat.sub_le ..

include hs

section

variable {ps : List ParameterLayout} (hps : code.parameters? opening stop = some ps) (hne : ps ≠ [])
  (hlevel : Level (code.window (opening + 1) stop))
include hps hne hlevel

/-- Where nothing is open behind parameters, one more is found behind a comma. -/
theorem exists_parameters?_comma {p : Parameter} (hp : p.Legible)
    (hshows : code.Shows stop (s ++ ([','] ++ (s' ++ Text.cells p.render.toList)))) {n : Nat}
    (hn : (s ++ ([','] ++ (s' ++ Text.cells p.render.toList))).length = n) :
    ∃ l, code.parameters? opening (stop + n) = some (ps ++ [l]) ∧
      TellsWithin code stop (stop + n) l p ∧ Level (code.window (opening + 1) (stop + n)) := by
  have hblanks := hshows.append_left.window_self
  have hcomma := hshows.append_right.append_left
  have hpiece : code.Shows (stop + s.length + 1) _ := hshows.append_right.append_right
  obtain ⟨c, hc, -⟩ := hp.black
  have hlen := hpiece.length_le (List.ne_nil_of_mem (List.mem_append_right s' hc))
  have hwhole := whole_parameter hs' hp
  have hwindow := hpiece.window_self
  have hsize : stop + s.length + 1 + (s' ++ Text.cells p.render.toList).length = stop + n := by
    rw [← hn]
    simp only [List.length_append, List.length_cons, List.length_nil]
    omega
  rw [hsize] at hlen hwindow
  -- The blanks before the comma belong to the parameter before it.
  have hle := Nat.le_add_right stop s.length
  have hlt' := Nat.lt_of_lt_of_le hlt hle
  have hbefore := parameters?_blanks hlt hle (by omega) (hblanks ▸ hs)
  have hlevel' : Level (code.window (opening + 1) (stop + s.length)) := by
    rw [← window_append_window hlt hle, hblanks]
    exact hlevel.blanks hs
  obtain ⟨l, hl, htells⟩ := hp.exists_parameter? (r := ⟨stop + s.length + 1, stop + n⟩) hs'
    ⟨hpiece, hsize.symm⟩
  have hrange := parameter?_range hl
  refine ⟨l, ?_, ⟨htells, ?_, ?_⟩, ?_⟩
  · exact parameters?_snoc hlen hlevel' (hcomma.getElem? (i := 0) Nat.one_pos) hlt' (by omega)
      (hwindow ▸ hwhole) (hbefore.trans hps) hne hl
  · have hstart : stop + s.length + 1 ≤ l.range.start := by
      rw [hrange]
      exact Nat.le_add_right ..
    omega
  · rw [hrange]
    exact Nat.sub_le ..
  · have hone : code.window (stop + s.length) (stop + s.length + 1) = [','] := hcomma.window_self
    rw [← window_append_window hlt' (show stop + s.length ≤ stop + n by omega),
      ← window_append_window (Nat.le_succ (stop + s.length)) (show _ + 1 ≤ stop + n by omega), hone,
      hwindow]
    exact hlevel'.comma hwhole.level

end

/-- Where nothing is open behind parameters, further ones are found behind commas. -/
theorem exists_parameters?_added {added : List Parameter} (hadded : ∀ p ∈ added, p.Legible)
    (hshows : code.Shows stop (addedCells s s' added)) {ps : List ParameterLayout}
    (hps : code.parameters? opening stop = some ps) (hne : ps ≠ [])
    (hlevel : Level (code.window (opening + 1) stop)) :
    ∃ ls, code.parameters? opening (stop + (addedCells s s' added).length) = some (ps ++ ls) ∧
      List.Forall₂ (TellsWithin code stop (stop + (addedCells s s' added).length)) ls added := by
  induction added generalizing stop ps with
  | nil => exact ⟨[], by simpa [addedCells] using hps, .nil⟩
  | cons p added ih =>
    have hcells : addedCells s s' (p :: added) =
        s ++ ([','] ++ (s' ++ Text.cells p.render.toList)) ++ addedCells s s' added := by
      simp [addedCells]
    rw [hcells] at hshows
    have hrest := hshows.append_right
    generalize hn : (s ++ ([','] ++ (s' ++ Text.cells p.render.toList))).length = n at hrest
    obtain ⟨l, hl, htells, hlevel'⟩ := exists_parameters?_comma hs hs' hlt hps hne hlevel
      (hadded p List.mem_cons_self) hshows.append_left hn
    obtain ⟨ls, hls, hall⟩ := ih (show opening < stop + n by omega)
      (fun q hq => hadded q (List.mem_cons_of_mem _ hq)) hrest hl (by simp) hlevel'
    have hstop : stop + (addedCells s s' (p :: added)).length =
        stop + n + (addedCells s s' added).length := by
      rw [hcells, List.length_append, hn, Nat.add_assoc]
    rw [hstop]
    refine ⟨l :: ls, ?_, .cons (htells.mono (Nat.le_refl _) (Nat.le_add_right ..))
      (hall.imp fun m q hm => hm.mono (Nat.le_add_right stop n) (Nat.le_refl _))⟩
    rw [hls, List.append_assoc]
    rfl

end

/-- Code that goes on with a blank, a comma or a closing parenthesis. -/
def Ending (l : Code) : Prop :=
  ∀ c, l.head? = some c → isLayoutBlank c = true ∨ c = ',' ∨ c = ')'

theorem Ending.append {l r : Code} (hl : Ending l) (hr : Ending r) : Ending (l ++ r) := by
  intro c hc
  cases l with
  | nil => exact hr c hc
  | cons d l => exact hl c hc

theorem ending_of_blanks {b : Code} (hb : ∀ c ∈ b, isLayoutBlank c = true) : Ending b :=
  fun c hc => .inl (hb c (List.mem_of_mem_head? hc))

/-- No operator runs on into such code. -/
theorem Ending.sealed {u z : Code} (h : Ending z) : (u ++ z).Sealed u.length := by
  intro _
  rw [List.getElem?_append_right (Nat.le_refl _), Nat.sub_self, ← List.head?_eq_getElem?]
  have hne : ∀ c, isLayoutBlank c = false → c ≠ ',' → c ≠ ')' → z.head? ≠ some c := by
    intro c hblank hcomma hparen hc
    rcases h c hc with hb | hc | hc
    · rw [hb] at hblank
      cases hblank
    · exact hcomma hc
    · exact hparen hc
  exact ⟨hne '=' (by decide) (by decide) (by decide), hne '>' (by decide) (by decide) (by decide)⟩

/-- The parameters that end where some code does are found in it alone. -/
theorem Ending.parameters? {u z : Code} (h : Ending z) {opening : Nat} (hopening : opening < u.length) :
    Code.parameters? (u ++ z) opening u.length = Code.parameters? u opening u.length := by
  have hshows : (u ++ z).Shows 0 u := List.prefix_append u z
  have hsealed : (u ++ z).Sealed (0 + u.length) := by
    rw [Nat.zero_add]
    exact h.sealed
  simpa using hshows.parameters? hsealed hopening (Nat.le_refl _)

section

variable {u w : Code} {opening : Nat} (hopening : opening < u.length)
include hopening

/-- The first parameters are found where only blanks stand behind the parenthesis. -/
theorem exists_parameters?_first (hblanks : ∀ c ∈ u.drop (opening + 1), isLayoutBlank c = true)
    {p : Parameter} {added : List Parameter} (hadded : ∀ q ∈ p :: added, q.Legible) {t : Code}
    (ht : Text.cells (renderParameters (p :: added)).toList = t) :
    ∃ ls, parameters? (u ++ t ++ w) opening (u ++ t).length = some ls ∧
      List.Forall₂ (TellsWithin (u ++ t ++ w) u.length (u ++ t).length) ls (p :: added) := by
  have hcells : t = Text.cells p.render.toList ++ addedCells [] [' '] added := by
    rw [← ht, cells_renderParameters]
  have hshows := shows_append u t w
  have hinside : (u ++ t ++ w).window (opening + 1) u.length = u.drop (opening + 1) := by
    rw [List.append_assoc, window_append_left (Nat.le_refl _), window_length]
  rw [List.length_append]
  generalize u ++ t ++ w = code at *
  rw [hcells] at hshows ⊢
  obtain ⟨l, hl, htells, hlevel⟩ := exists_parameters?_single hblanks hopening
    (hadded p List.mem_cons_self) hinside hshows.append_left
  have hnone : ∀ c ∈ ([] : Code), isLayoutBlank c = true := by simp
  have hspace : ∀ c ∈ [' '], isLayoutBlank c = true := by decide
  obtain ⟨ls, hls, hall⟩ := exists_parameters?_added hnone hspace
    (by omega) (fun q hq => hadded q (List.mem_cons_of_mem _ hq)) hshows.append_right hl (by simp)
    hlevel
  rw [List.length_append, ← Nat.add_assoc]
  exact ⟨l :: ls, hls, .cons (htells.mono (Nat.le_refl _) (Nat.le_add_right ..))
    (hall.imp fun m q hm => hm.mono (Nat.le_add_right ..) (Nat.le_refl _))⟩

/-- Further parameters are found behind those that were there, which stay as they are. -/
theorem exists_parameters?_further {closing : Nat} {ps : List ParameterLayout}
    (hparams : parameters? (u ++ w) opening closing = some ps) (hne : ps ≠ [])
    (hopens : u[opening]? = some '(') (hcloses : (u ++ w)[closing]? = some ')')
    (hclosing : u.length ≤ closing)
    (hblanks : ∀ c ∈ (u ++ w).window u.length closing, isLayoutBlank c = true)
    (hlevel : Level (u.drop (opening + 1))) {s s' : Code} (hs : ∀ c ∈ s, isLayoutBlank c = true)
    (hs' : ∀ c ∈ s', isLayoutBlank c = true) {added : List Parameter}
    (hadded : ∀ p ∈ added, p.Legible) {t : Code} (ht : addedCells s s' added = t) :
    (∀ l ∈ ps, l.Readable u) ∧
      ∃ ls, parameters? (u ++ t ++ w) opening (u ++ t).length = some (ps ++ ls) ∧
        List.Forall₂ (TellsWithin (u ++ t ++ w) u.length (u ++ t).length) ls added := by
  have hinside := (List.getElem?_eq_some_iff.mp hcloses).1
  have hw : Ending w := by
    intro c hc
    have hget : (u ++ w)[u.length]? = some c := by
      rw [List.getElem?_append_right (Nat.le_refl _), Nat.sub_self, ← List.head?_eq_getElem?, hc]
    rcases Nat.eq_or_lt_of_le hclosing with heq | hlt
    · rw [heq, hcloses] at hget
      exact .inr (.inr (Option.some.inj hget).symm)
    · refine .inl (hblanks c (List.mem_iff_getElem?.mpr ⟨0, ?_⟩))
      rw [getElem?_window_of_lt (by omega), Nat.add_zero, hget]
  have hadd : Ending t := by
    rw [← ht, addedCells]
    cases added with
    | nil => exact ending_of_blanks (by simp)
    | cons p added =>
      have hcomma : Ending (',' :: (s' ++ Text.cells p.render.toList) ++ addedCells s s' added) :=
        fun c hc => .inr (.inl (Option.some.inj hc).symm)
      rw [List.flatMap_cons, List.append_assoc]
      exact (ending_of_blanks hs).append hcomma
  have hu : Code.parameters? u opening u.length = some ps := by
    rw [← hw.parameters? hopening, ← hparams]
    exact (parameters?_blanks hopening hclosing (Nat.le_of_lt hinside) hblanks).symm
  refine ⟨(parameters?_spec hopening (seam_of_solid hopens (by decide)).2 (seam_length u) hu).2, ?_⟩
  have hfound := (hadd.append hw).parameters? hopening
  rw [hu, ← List.append_assoc] at hfound
  have hshows := shows_append u t w
  have hfront : (u ++ t ++ w).window (opening + 1) u.length = u.drop (opening + 1) := by
    rw [List.append_assoc, window_append_left (Nat.le_refl _), window_length]
  rw [List.length_append]
  generalize u ++ t ++ w = code at *
  rw [← ht] at hshows ⊢
  exact exists_parameters?_added hs hs' hopening hadded hshows hfound hne (hfront ▸ hlevel)

end

end Code

end ClassRefactor
