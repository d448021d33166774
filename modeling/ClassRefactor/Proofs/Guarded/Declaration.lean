import ClassRefactor.Proofs.Guarded.Scan
import ClassRefactor.Proofs.Layout.Modifier

/-!
# Guarded parts of declarations

The start of a declaration, attributes, modifiers, and the split into a type and a name, with every
word cut from the masked text between its characters.
-/

namespace ClassRefactor

/-- A seam of the cells of a text is a boundary of the text. -/
theorem Text.isBoundary_of_seam_cells {t : Text} {p : Nat} (h : Code.Seam t.cells p) :
    t.isBoundary p = true := by
  obtain ⟨hle, hsame⟩ := h
  cases hb : isBoundary t p with
  | true => rfl
  | false =>
    obtain ⟨s, c, u, k, rfl, rfl, hk, hlt⟩ :=
      exists_cells_of_not_isBoundary (by simpa using hle) hb
    have hprev : size s + k - 1 = size s + (k - 1) := by omega
    have hsolid := hsame (by omega) c
      (by rw [hprev]; exact getElem?_cells_append_cons s c u (by omega))
      (getElem?_cells_append_cons s c u hlt)
    simp only [isSolid, Bool.and_eq_true, beq_iff_eq] at hsolid
    omega

namespace Guarded

/-- A range that fits the cells of a text is cut from it. -/
theorem cut_of_fits {t : Text} {r : Range} (h : Code.Fits t.cells r) :
    cut t r = .ok (t.slice r.start r.stop) ∧
      (t.slice r.start r.stop).cells = Code.window t.cells r.start r.stop := by
  obtain ⟨hle, hstart, hstop⟩ := h
  have hb := Text.isBoundary_of_seam_cells hstart
  have he := Text.isBoundary_of_seam_cells hstop
  exact ⟨cut_eq (by simp [Text.read, Nat.not_lt.mpr hle, hb, he]), Text.cells_slice hb he hle⟩

/-- The cells of a range of the masked text. -/
def cutCells (t : Text) (r : Range) : Guarded Code := return (← cut t r).cells

theorem cutCells_eq {t : Text} {r : Range} (h : Code.Fits t.cells r) :
    cutCells t r = .ok (Code.window t.cells r.start r.stop) := by
  obtain ⟨hcut, hcells⟩ := cut_of_fits h
  rw [cutCells, hcut, ok_bind, hcells, pure_eq_ok]

/-- A cell of the way back from a keyword; `brackets` counts the attribute brackets to open. -/
def backTurn (brackets prev : Nat) (c : Char) : Guarded (Turn Nat Nat) :=
  if c == ']' then return .go (brackets + 1) prev
  else if c == '[' then return .go (brackets - 1) prev
  else if (c == ';' || c == '{' || c == '}') && brackets == 0 then return .done (prev + 1)
  else return .go brackets prev

/-- The start of the declaration whose keyword stands at `keyword`. -/
def declarationStart (code : Code) (keyword : Nat) : Guarded Nat := do
  let start ← sweepDown code 0 backTurn (fun _ pos => return pos) 0 keyword
  skipBlanks code start keyword

theorem declarationStart_eq {code : Code} {keyword : Nat} (h : keyword ≤ code.length) :
    declarationStart code keyword = .ok (code.declarationStart keyword) := by
  have hback : sweepDown code 0 backTurn (fun _ pos => return pos) 0 keyword =
      .ok (keyword - Code.reachBack 0 (code.take keyword).reverse) := by
    refine sweepDown_eq (fun brackets pos => pos - Code.reachBack brackets (code.take pos).reverse)
      (fun _ _ => True) (fun brackets pos hpos _ => ?_) (fun brackets prev c _ hc _ => ?_) h trivial
    · have hzero : pos = 0 := by omega
      simp [hzero]
    · have htake : (code.take (prev + 1)).reverse = c :: (code.take prev).reverse := by
        rw [List.take_add_one, hc]
        simp
      simp only [htake, backTurn, Code.reachBack]
      split
      · exact .inr ⟨_, rfl, trivial, by omega⟩
      · split
        · exact .inr ⟨_, rfl, trivial, by omega⟩
        · rw [Bool.and_comm]
          split
          · exact .inl rfl
          · exact .inr ⟨_, rfl, trivial, by omega⟩
  rw [declarationStart, hback, ok_bind, skipBlanks_eq h, Code.declarationStart]

/-- A cell of a search for the words outside brackets. -/
def wordTurn (t : Text) (stop : Nat) (s : List Code × Nat) (pos : Nat) (c : Char) :
    Guarded (Turn (List Code × Nat) (List Code)) :=
  if c == '[' then return .go (s.1, s.2 + 1) (pos + 1)
  else if c == ']' then return .go (s.1, s.2 - 1) (pos + 1)
  else if s.2 == 0 && isIdentCell c then do
    let wordStop ← identEnd t.cells pos stop
    let word ← cutCells t ⟨pos, wordStop⟩
    return .go (s.1 ++ [word], s.2) wordStop
  else return .go s (pos + 1)

/-- The identifiers outside attribute brackets. -/
def leadingWords (t : Text) (start stop : Nat) : Guarded (List Code) :=
  sweep t.cells stop (wordTurn t stop) (fun s _ => return s.1) ([], 0) start

/-- The class modifiers among the words between two positions. -/
def classModifiers (t : Text) (start stop : Nat) : Guarded (List String) := do
  return (← leadingWords t start stop).filterMap (Code.known? typeModifiers)

/-- A run at the front of a window, and the window after it. -/
theorem window_run (code : Code) (p : Char → Bool) (pos stop : Nat) :
    (code.window pos stop).takeWhile p =
        code.window pos (pos + Code.leading p (code.window pos stop)) ∧
      (code.window pos stop).dropWhile p =
        code.window (pos + Code.leading p (code.window pos stop)) stop := by
  have hle := Code.leading_le p (code.window pos stop)
  rw [Code.length_window] at hle
  have htake := List.prefix_iff_eq_take.mp (List.takeWhile_prefix p (l := code.window pos stop))
  have hsplit := List.takeWhile_append_dropWhile (p := p) (l := code.window pos stop)
  have hdrop := congrArg (List.drop (Code.leading p (code.window pos stop))) hsplit
  rw [Code.leading, List.drop_left, ← Code.leading, Code.window_drop] at hdrop
  refine ⟨htake.trans ?_, hdrop⟩
  rw [← Code.leading]
  generalize Code.leading p (code.window pos stop) = n at *
  rw [Code.window, List.take_take, Code.window, Nat.add_sub_cancel_left,
    Nat.min_eq_left (by omega)]

/-- The word at a position that holds an identifier cell. -/
theorem window_word {code : Code} {pos stop : Nat} {c : Char} (hlt : pos < stop)
    (hc : code[pos]? = some c) (hident : isIdentCell c = true) :
    ∃ w, code.identEnd pos stop = pos + w.length ∧ code.window pos (pos + w.length) = w ∧
      code.window pos stop = w ++ code.window (pos + w.length) stop ∧ w ≠ [] ∧
      (∀ d ∈ w, isIdentCell d = true) ∧
      ∀ d, (code.window (pos + w.length) stop).head? = some d → isIdentCell d = false := by
  obtain ⟨htake, hdrop⟩ := window_run code isIdentCell pos stop
  have hsplit := List.takeWhile_append_dropWhile (p := isIdentCell) (l := code.window pos stop)
  have hhead := List.head?_dropWhile_not isIdentCell (code.window pos stop)
  rw [Code.leading] at htake hdrop
  rw [hdrop] at hsplit hhead
  refine ⟨(code.window pos stop).takeWhile isIdentCell, rfl, htake.symm, hsplit.symm, ?_,
    fun d hd => List.all_eq_true.mp List.all_takeWhile d hd, fun d hd => ?_⟩
  · simp [Code.window_of_lt hlt hc, hident]
  · rw [hd] at hhead
    simpa using hhead

/-- Identifier cells up to one that is none are one word. -/
theorem wordsFrom_word {w rest : Code} (hw : ∀ c ∈ w, isIdentCell c = true)
    (hrest : ∀ c, rest.head? = some c → isIdentCell c = false) {word : Code}
    (hne : word.reverse ++ w ≠ []) :
    Code.wordsFrom word 0 (w ++ rest) = (word.reverse ++ w) :: Code.wordsFrom [] 0 rest := by
  induction w generalizing word with
  | nil =>
    have hword : word ≠ [] := by simpa using hne
    cases rest with
    | nil => simp [Code.wordsFrom, hword]
    | cons c rest => simp [Code.wordsFrom, hrest c rfl, hword]
  | cons c w ih =>
    have hc := hw c List.mem_cons_self
    have hrun : Code.wordsFrom (c :: word) 0 (w ++ rest) =
        ((c :: word).reverse ++ w) :: Code.wordsFrom [] 0 rest :=
      ih (fun d hd => hw d (List.mem_cons_of_mem _ hd)) (by simp)
    simp [Code.wordsFrom, hc, hrun]

theorem leadingWords_eq {t : Text} {start stop : Nat} (hle : start ≤ stop)
    (hstart : Code.Seam t.cells start) (hstop : Code.Seam t.cells stop) :
    leadingWords t start stop = .ok (Code.wordsFrom [] 0 (Code.window t.cells start stop)) := by
  -- A word begins at a seam: it does not go on from the cell before it.
  refine sweep_eq
    (fun (s : List Code × Nat) pos => s.1 ++ Code.wordsFrom [] s.2 (Code.window t.cells pos stop))
    (fun s pos => pos ≤ stop ∧ (s.2 = 0 → ∀ c, t.cells[pos]? = some c → isIdentCell c = true →
      Code.Seam t.cells pos)) hstop.le
    (fun s pos hpos _ => ?_) (fun s pos c hlt hc hinv => ?_)
    ⟨hle, fun _ _ _ _ => hstart⟩
  · simp [Code.window_of_le hpos, Code.wordsFrom]
  · have hnext : isIdentCell c = false → ∀ d, t.cells[pos + 1]? = some d →
        isIdentCell d = true → Code.Seam t.cells (pos + 1) := by
      intro hci d hd hdi
      have hbound := (List.getElem?_eq_some_iff.mp hd).1
      refine Code.seam_of_change isIdentCell (Nat.le_of_lt hbound) (by simpa using hc) ?_
      intro e he
      rw [hd] at he
      obtain rfl := Option.some.inj he
      simp [hci, hdi]
    unfold wordTurn
    split
    · rename_i hopen
      obtain rfl : c = '[' := by simpa using hopen
      refine .inr ⟨_, _, rfl, Nat.lt_succ_self _, ⟨hlt, by simp⟩, ?_⟩
      have hident : isIdentCell '[' = false := by decide
      simp [Code.window_of_lt hlt hc, Code.wordsFrom, hident]
    · split
      · rename_i hclose
        obtain rfl : c = ']' := by simpa using hclose
        refine .inr ⟨_, _, rfl, Nat.lt_succ_self _, ⟨hlt, fun _ => hnext (by decide)⟩, ?_⟩
        have hident : isIdentCell ']' = false := by decide
        simp [Code.window_of_lt hlt hc, Code.wordsFrom, hident]
      · rename_i hopen hclose
        split
        · rename_i hword
          simp only [Bool.and_eq_true, beq_iff_eq] at hword
          obtain ⟨hzero, hident⟩ := hword
          have hpos := hinv.2 hzero c hc hident
          obtain ⟨w, hend, hword, hwindow, hne, hw, hrest⟩ := window_word hlt hc hident
          have hbound := (Code.run_spec isIdentCell hinv.1 hstop.le).1
          have hseam := Code.seam_run isIdentCell hinv.1 hpos hstop
          rw [← Code.identEnd, hend] at hbound hseam
          have hgrow := List.length_pos_iff.mpr hne
          rw [identEnd_eq hstop.le, ok_bind, hend,
            cutCells_eq ⟨Nat.le_add_right .., hpos, hseam⟩, ok_bind, hword]
          refine .inr ⟨_, _, rfl, by omega, ⟨hbound, fun _ _ _ _ => hseam⟩, ?_⟩
          rw [hzero, hwindow, wordsFrom_word hw hrest (by simpa using hne), List.append_assoc]
          rfl
        · rename_i hword
          refine .inr ⟨_, _, rfl, Nat.lt_succ_self _, ⟨hlt, fun hzero => hnext ?_⟩, ?_⟩
          · simpa [hzero] using hword
          · simp only [Code.window_of_lt hlt hc, Code.wordsFrom, hword, hopen, hclose]
            rfl

theorem classModifiers_eq {t : Text} {start stop : Nat} (hle : start ≤ stop)
    (hstart : Code.Seam t.cells start) (hstop : Code.Seam t.cells stop) :
    classModifiers t start stop = .ok (Code.classModifiers t.cells start stop) := by
  rw [classModifiers, leadingWords_eq hle hstart hstop]
  rfl

/-- The position after the attributes at `pos` and the blanks around them. -/
def skipAttributes (code : Code) (pos stop : Nat) : Guarded Nat := do
  let opened ← skipBlanks code pos stop
  if opened < stop then
    if (← fetch code opened) == '[' then
      match ← matchingClose '[' ']' (← upTo code stop) opened with
      | none => return opened
      | some close =>
        if pos < close + 1 ∧ close < stop then skipAttributes code (close + 1) stop
        else throw (.stalled pos)
    else return opened
  else return opened
termination_by stop - pos

/-- Outside brackets, where the last attribute opened does not matter. -/
theorem attributesFrom_zero (a b pos : Nat) (cells : Code) :
    Code.attributesFrom 0 a pos cells = Code.attributesFrom 0 b pos cells := by
  induction cells generalizing pos with
  | nil => rfl
  | cons c rest ih => simp only [Code.attributesFrom, ih]

theorem attributesFrom_blanks (opened pos : Nat) (cells : Code) :
    Code.attributesFrom 0 opened pos cells =
      Code.attributesFrom 0 opened (pos + Code.leading isLayoutBlank cells)
        (cells.dropWhile isLayoutBlank) := by
  induction cells generalizing pos with
  | nil => rfl
  | cons c rest ih =>
    by_cases hc : isLayoutBlank c = true
    · have hopen : (c == '[') = false := by
        rw [beq_eq_false_iff_ne]
        rintro rfl
        revert hc
        decide
      have hat : pos + (Code.leading isLayoutBlank rest + 1) =
          pos + 1 + Code.leading isLayoutBlank rest := by omega
      simp only [Code.attributesFrom, hopen, hc, Code.leading_cons, List.dropWhile_cons, if_true,
        Bool.false_eq_true, if_false, hat]
      exact ih (pos + 1)
    · simp [Code.leading_cons, hc]

/-- Within an attribute, its end is searched for. -/
theorem attributesFrom_within (depth opened pos : Nat) (cells : Code) :
    Code.attributesFrom (depth + 1) opened pos cells =
      match Code.closeFrom '[' ']' depth cells with
      | none => opened
      | some n => Code.attributesFrom 0 opened (pos + n + 1) (cells.drop (n + 1)) := by
  induction cells generalizing depth pos with
  | nil => rfl
  | cons c rest ih =>
    have next : ∀ depth, Code.attributesFrom (depth + 1) opened (pos + 1) rest =
        match (Code.closeFrom '[' ']' depth rest).map (· + 1) with
        | none => opened
        | some n => Code.attributesFrom 0 opened (pos + n + 1) ((c :: rest).drop (n + 1)) := by
      intro depth
      rw [ih]
      cases Code.closeFrom '[' ']' depth rest with
      | none => rfl
      | some n =>
        have hat : pos + 1 + n + 1 = pos + (n + 1) + 1 := by omega
        simp [hat]
    simp only [Code.attributesFrom, Code.closeFrom]
    split
    · exact next (depth + 1)
    · split
      · cases depth with
        | zero => rfl
        | succ depth => exact next depth
      · exact next depth

theorem drop_take_eq_window (code : Code) (start stop : Nat) :
    (code.take stop).drop start = code.window start stop := by
  rw [List.drop_take, Code.window]

theorem skipAttributes_eq {code : Code} {stop : Nat} (hstop : stop ≤ code.length) (pos : Nat) :
    skipAttributes code pos stop = .ok (code.skipAttributes pos stop) := by
  induction hn : stop - pos using Nat.strongRecOn generalizing pos with
  | ind n ih =>
    obtain ⟨-, hdrop⟩ := window_run code isLayoutBlank pos stop
    have hblanks : code.skipAttributes pos stop = Code.attributesFrom 0 pos
        (code.skipBlanks pos stop) (code.window (code.skipBlanks pos stop) stop) := by
      rw [Code.skipAttributes, attributesFrom_blanks, hdrop, Code.skipBlanks]
    rw [skipAttributes, skipBlanks_eq hstop, ok_bind, hblanks]
    have hle : pos ≤ code.skipBlanks pos stop := Nat.le_add_right ..
    have hstopped : code.skipBlanks pos stop < stop →
        ∃ c, code[code.skipBlanks pos stop]? = some c ∧ isLayoutBlank c = false :=
      fun h => (Code.run_spec isLayoutBlank (Nat.le_trans hle (Nat.le_of_lt h)) hstop).2.2 h
    generalize code.skipBlanks pos stop = opened at hle hstopped
    split
    · rename_i hlt
      obtain ⟨c, hc, hblank⟩ := hstopped hlt
      have hwindow := Code.window_of_lt hlt hc
      rw [fetch_eq hc, ok_bind, hwindow]
      split
      · rename_i hopen
        obtain rfl : c = '[' := by simpa using hopen
        have hclose : Code.matchingClose? '[' ']' (code.take stop) opened =
            (Code.closeFrom '[' ']' 0 (code.window (opened + 1) stop)).map (opened + 1 + ·) := by
          simp [Code.matchingClose?, drop_take_eq_window, hwindow]
        rw [upTo_eq hstop, ok_bind, matchingClose_eq (by decide), ok_bind, hclose]
        simp only [Code.attributesFrom, beq_self_eq_true, if_true, attributesFrom_within]
        cases hn' : Code.closeFrom '[' ']' 0 (code.window (opened + 1) stop) with
        | none => rfl
        | some m =>
          have hm := (List.getElem?_eq_some_iff.mp (Code.closeFrom_spec hn')).1
          rw [Code.length_window] at hm
          have hguard : pos < opened + 1 + m + 1 ∧ opened + 1 + m < stop := by omega
          simp only [Option.map_some, hguard, and_self, if_true]
          rw [ih _ (by omega) _ rfl, Code.skipAttributes, Code.window_drop,
            attributesFrom_zero _ opened]
          rfl
      · rename_i hopen
        simp only [Code.attributesFrom, hopen, hblank, Bool.false_eq_true, if_false]
        rfl
    · rename_i hge
      simp [Code.window_of_le (Nat.le_of_not_lt hge), Code.attributesFrom]

/-- A cell at which a modifier may begin. -/
def modifierTurn (known : List String) (t : Text) (stop : Nat) (found : List String) (pos : Nat)
    (c : Char) : Guarded (Turn (List String) (List String × Nat)) :=
  if isIdentCell c then do
    let wordStop ← identEnd t.cells pos stop
    match Code.known? known (← cutCells t ⟨pos, wordStop⟩) with
    | none => return .done (found, pos)
    | some modifier => return .go (found ++ [modifier]) (← skipBlanks t.cells wordStop stop)
  else return .done (found, pos)

/-- The modifiers at the front of a declaration, and the position after them. -/
def modifiers (known : List String) (t : Text) (start stop : Nat) :
    Guarded (List String × Nat) := do
  sweep t.cells stop (modifierTurn known t stop) (fun found pos => return (found, pos)) []
    (← skipBlanks t.cells start stop)

theorem modifiersFrom_blanks (known : List String) (wordStart pos : Nat) (cells : Code) :
    Code.modifiersFrom known [] wordStart pos cells =
      Code.modifiersFrom known [] wordStart (pos + Code.leading isLayoutBlank cells)
        (cells.dropWhile isLayoutBlank) := by
  induction cells generalizing wordStart pos with
  | nil => rfl
  | cons c rest ih =>
    by_cases hc : isLayoutBlank c = true
    · have hident : isIdentCell c = false := by
        cases hi : isIdentCell c with
        | false => rfl
        | true => rw [isLayoutBlank_eq_false_of_isIdentCell hi] at hc; cases hc
      have hat : pos + (Code.leading isLayoutBlank rest + 1) =
          pos + 1 + Code.leading isLayoutBlank rest := by omega
      simp only [Code.modifiersFrom, hident, hc, Code.leading_cons, List.dropWhile_cons, if_true,
        Bool.false_eq_true, if_false, hat, List.isEmpty_nil]
      rw [ih]
      exact Code.modifiersFrom_nil_start ..
    · simp [Code.leading_cons, hc]

/-- A modifier, and the modifiers after it. -/
theorem modifiersFrom_known {known : List String} {w rest : Code} {modifier : String}
    (hw : ∀ c ∈ w, isIdentCell c = true) (hne : w ≠ [])
    (hknown : Code.known? known w = some modifier)
    (hrest : ∀ c, rest.head? = some c → isIdentCell c = false) (wordStart pos : Nat) :
    Code.modifiersFrom known [] wordStart pos (w ++ rest) =
      (modifier :: (Code.modifiersFrom known [] wordStart (pos + w.length) rest).1,
        (Code.modifiersFrom known [] wordStart (pos + w.length) rest).2) := by
  rw [Code.modifiersFrom_word hw hne]
  cases rest with
  | nil => simp [Code.modifiersFrom, hne, hknown]
  | cons c rest =>
    by_cases hc : isLayoutBlank c = true
    · simp [Code.modifiersFrom, hrest c rfl, hne, hknown, hc]
    · simp [Code.modifiersFrom, hrest c rfl, hne, hknown, hc]

/-- A position at which no more blanks are to be passed over. -/
structure Stopped (code : Code) (stop pos : Nat) : Prop where
  le : pos ≤ stop
  seam : code.Seam pos
  nonblank : pos < stop → ∃ c, code[pos]? = some c ∧ isLayoutBlank c = false

theorem stopped_skipBlanks {code : Code} {pos stop : Nat} (hle : pos ≤ stop)
    (hpos : code.Seam pos) (hstop : code.Seam stop) :
    Stopped code stop (code.skipBlanks pos stop) :=
  have hspec := Code.skipBlanks_spec hle hpos hstop
  ⟨hspec.2.1, hspec.2.2, (Code.run_spec isLayoutBlank hle hstop.le).2.2⟩

theorem modifiers_eq (known : List String) {t : Text} {start stop : Nat} (hle : start ≤ stop)
    (hstart : Code.Seam t.cells start) (hstop : Code.Seam t.cells stop) :
    modifiers known t start stop = .ok (Code.modifiers known t.cells start stop) := by
  have hblanks : ∀ a pos, Code.modifiersFrom known [] a pos (Code.window t.cells pos stop) =
      Code.modifiersFrom known [] a (Code.skipBlanks t.cells pos stop)
        (Code.window t.cells (Code.skipBlanks t.cells pos stop) stop) := by
    intro a pos
    rw [modifiersFrom_blanks, (window_run t.cells isLayoutBlank pos stop).2, Code.skipBlanks]
  rw [modifiers, skipBlanks_eq hstop.le, ok_bind, Code.modifiers, hblanks]
  refine (sweep_eq (fun found pos =>
    (found ++ (Code.modifiersFrom known [] start pos (Code.window t.cells pos stop)).1,
      (Code.modifiersFrom known [] start pos (Code.window t.cells pos stop)).2))
    (fun _ pos => Stopped t.cells stop pos) hstop.le (fun found pos hpos _ => ?_)
    (fun found pos c hlt hc hinv => ?_) (stopped_skipBlanks hle hstart hstop)).trans (by simp)
  · simp [Code.window_of_le hpos, Code.modifiersFrom]
  · obtain ⟨d, hd, hblank⟩ := hinv.nonblank hlt
    rw [hc] at hd
    obtain rfl := Option.some.inj hd
    unfold modifierTurn
    split
    · rename_i hident
      obtain ⟨w, hend, hword, hwindow, hne, hw, hrest⟩ := window_word hlt hc hident
      have hbound := (Code.run_spec isIdentCell hinv.le hstop.le).1
      have hseam := Code.seam_run isIdentCell hinv.le hinv.seam hstop
      rw [← Code.identEnd, hend] at hbound hseam
      rw [identEnd_eq hstop.le, ok_bind, hend,
        cutCells_eq ⟨Nat.le_add_right .., hinv.seam, hseam⟩, ok_bind, hword, hwindow]
      cases hknown : Code.known? known w with
      | none =>
        rw [Code.modifiersFrom_unknown hw hne hknown hrest]
        exact .inl (by simp)
      | some modifier =>
        have hgrow := List.length_pos_iff.mpr hne
        have hskip : pos + w.length ≤ Code.skipBlanks t.cells (pos + w.length) stop :=
          Nat.le_add_right ..
        rw [modifiersFrom_known hw hne hknown hrest, hblanks, skipBlanks_eq hstop.le]
        exact .inr ⟨_, _, rfl, by omega, stopped_skipBlanks hbound hseam hstop, by simp⟩
    · rename_i hident
      refine .inl ?_
      simp [Code.window_of_lt hlt hc, Code.modifiersFrom, hident, hblank]

end Guarded

end ClassRefactor
