import ClassRefactor.Proofs.Guarded.Basic

/-!
# Guarded scans

The searches for delimiters, commas, assignments and words, each as a loop over positions. Depths
are counted with guarded differences, and the cell before a position is fetched like any other. Each
search finds what the scan of the cells finds.
-/

namespace ClassRefactor.Guarded

variable {code : Code}

def skipBlanks (code : Code) (pos stop : Nat) : Guarded Nat := runUp isLayoutBlank code pos stop

def trimBlanks (code : Code) (start stop : Nat) : Guarded Nat :=
  runDown isLayoutBlank code start stop

def identEnd (code : Code) (pos stop : Nat) : Guarded Nat := runUp isIdentCell code pos stop

theorem skipBlanks_eq {stop : Nat} (hstop : stop ≤ code.length) (pos : Nat) :
    skipBlanks code pos stop = .ok (code.skipBlanks pos stop) :=
  runUp_eq isLayoutBlank hstop pos

theorem trimBlanks_eq {start stop : Nat} (hle : start ≤ stop) (hstop : stop ≤ code.length) :
    trimBlanks code start stop = .ok (code.trimBlanks start stop) :=
  runDown_eq isLayoutBlank hle hstop

theorem identEnd_eq {stop : Nat} (hstop : stop ≤ code.length) (pos : Nat) :
    identEnd code pos stop = .ok (code.identEnd pos stop) :=
  runUp_eq isIdentCell hstop pos

/-- A cell of a search for a closing delimiter; `depth` counts the open ones. -/
def closeTurn (opening closing : Char) (depth pos : Nat) (c : Char) :
    Guarded (Turn Nat (Option Nat)) :=
  if c == opening then return .go (depth + 1) (pos + 1)
  else if c == closing then do
    let depth ← minus depth 1
    return if depth == 0 then .done (some pos) else .go depth (pos + 1)
  else return .go depth (pos + 1)

/-- The position of the delimiter that closes the one at `start`. -/
def matchingClose (opening closing : Char) (code : Code) (start : Nat) : Guarded (Option Nat) :=
  if code[start]? == some opening then
    sweep code code.length (closeTurn opening closing) (fun _ _ => return none) 0 start
  else return none

/-- A distance from the next position, measured from this one. -/
theorem map_add_comp_succ (pos : Nat) (distance : Option Nat) :
    distance.map ((pos + ·) ∘ (· + 1)) = distance.map (pos + 1 + ·) := by
  congr 1
  funext n
  simp only [Function.comp]
  omega

theorem sweep_closeTurn {opening closing : Char} (hne : opening ≠ closing) {depth pos : Nat}
    (hdepth : 0 < depth) :
    sweep code code.length (closeTurn opening closing) (fun _ _ => return none) depth pos =
      .ok ((Code.closeFrom opening closing (depth - 1) (code.window pos code.length)).map
        (pos + ·)) := by
  refine sweep_eq (fun depth pos => (Code.closeFrom opening closing (depth - 1)
    (code.window pos code.length)).map (pos + ·)) (fun depth _ => 0 < depth) (Nat.le_refl _)
    (fun depth pos hle _ => ?_) (fun depth pos c hlt hc hdepth => ?_) hdepth
  · simp [Code.window_of_le hle, Code.closeFrom]
  · obtain ⟨d, rfl⟩ : ∃ d, depth = d + 1 := ⟨depth - 1, by omega⟩
    simp only [Code.window_of_lt hlt hc, Nat.add_sub_cancel, closeTurn, Code.closeFrom, beq_iff_eq]
    by_cases ho : c = opening
    · exact .inr ⟨d + 2, pos + 1, by simp [ho], by omega, by omega, by simp [ho, map_add_comp_succ]⟩
    · by_cases hcl : c = closing
      · cases d with
        | zero => exact .inl (by simp [hcl, hne.symm, minus])
        | succ d =>
          exact .inr ⟨d + 1, pos + 1, by simp [hcl, hne.symm, minus], by omega, by omega,
            by simp [hcl, hne.symm, map_add_comp_succ]⟩
      · exact .inr ⟨d + 1, pos + 1, by simp [ho, hcl], by omega, by omega,
          by simp [ho, hcl, map_add_comp_succ]⟩

theorem matchingClose_eq {opening closing : Char} (hne : opening ≠ closing) (code : Code)
    (start : Nat) :
    matchingClose opening closing code start =
      .ok (Code.matchingClose? opening closing code start) := by
  unfold matchingClose
  split
  · rename_i hopen
    have hopen : code[start]? = some opening := by simpa using hopen
    have hlt := (List.getElem?_eq_some_iff.mp hopen).1
    have hdrop : code.drop start = opening :: code.drop (start + 1) := by
      rw [← Code.window_length, Code.window_of_lt hlt hopen, Code.window_length]
    have hturn : closeTurn opening closing 0 start opening = .ok (.go 1 (start + 1)) := by
      simp [closeTurn]
    rw [sweep, if_pos hlt, fetch_eq hopen, ok_bind, hturn, ok_bind]
    simp only [Nat.lt_succ_self, if_true]
    rw [sweep_closeTurn hne Nat.one_pos, Code.window_length]
    simp [Code.matchingClose?, hdrop]
  · rename_i hopen
    cases hdrop : code.drop start with
    | nil => simp [Code.matchingClose?, hdrop]
    | cons c rest =>
      have hc : code[start]? = some c := by
        rw [← Nat.add_zero start, ← List.getElem?_drop, hdrop]
        rfl
      have hco : c ≠ opening := by
        rintro rfl
        simp [hc] at hopen
      simp [Code.matchingClose?, hdrop, hco]

/-- The state of a cut at commas: the pieces so far, and the depths in the current one. -/
structure Commas where
  pieces : List Range := []
  brackets : Nat := 0
  angles : Nat := 0
  start : Nat

/-- A cell of a cut at commas that began at `start`. -/
def commaTurn (code : Code) (start : Nat) (s : Commas) (pos : Nat) (c : Char) :
    Guarded (Turn Commas (List Range)) :=
  if c == '(' || c == '[' || c == '{' then
    return .go { s with brackets := s.brackets + 1 } (pos + 1)
  else if c == ')' || c == ']' || c == '}' then
    return .go { s with brackets := s.brackets - 1 } (pos + 1)
  else if c == '<' then do
    if start < pos then
      let previous ← fetch code (← minus pos 1)
      return .go { s with angles := if isIdentCell previous then s.angles + 1 else s.angles }
        (pos + 1)
    else return .go s (pos + 1)
  else if c == '>' then do
    if 0 < s.angles then return .go { s with angles := ← minus s.angles 1 } (pos + 1)
    else return .go s (pos + 1)
  else if c == ',' && s.brackets == 0 && s.angles == 0 then
    return .go { pieces := s.pieces ++ [⟨s.start, pos⟩], start := pos + 1 } (pos + 1)
  else return .go s (pos + 1)

/-- The ranges of the comma-separated pieces between two positions. Depths of brackets do not fall
below zero: a stray closing bracket is passed over. -/
def commaRanges (code : Code) (start stop : Nat) : Guarded (List Range) :=
  sweep code stop (commaTurn code start) (fun s _ => return s.pieces ++ [⟨s.start, stop⟩])
    { start } start

/-- What is still to be cut off, given the state of the cut. -/
def Commas.answer (code : Code) (stop : Nat) (s : Commas) (pos : Nat) : List Range :=
  s.pieces ++ Code.spread s.start (Code.commaPiecesFrom (code.window s.start pos).reverse
    s.brackets s.angles (code.window pos stop))

/-- The current piece begins where the cut began or after a comma. -/
structure Commas.Inv (code : Code) (start stop : Nat) (s : Commas) (pos : Nat) : Prop where
  ordered : start ≤ s.start ∧ s.start ≤ pos ∧ pos ≤ stop
  begins : s.start = start ∨ code[s.start - 1]? = some ','

theorem head?_reverse_window {start pos : Nat} {c : Char} (hlt : start < pos)
    (hc : code[pos - 1]? = some c) : (code.window start pos).reverse.head? = some c := by
  have hsucc := Code.window_succ (Nat.le_sub_one_of_lt hlt) hc
  rw [Nat.sub_add_cancel (by omega)] at hsucc
  simp [hsucc]

/-- Whether a `<` at `pos` opens type arguments can be told from the cell before it. -/
theorem Commas.Inv.previous {start stop pos : Nat} {s : Commas} (h : s.Inv code start stop pos)
    (hstop : stop ≤ code.length) :
    (code.window s.start pos).reverse.head?.any isIdentCell =
      (decide (start < pos) && code[pos - 1]?.any isIdentCell) := by
  obtain ⟨h1, h2, h3⟩ := h.ordered
  rcases Nat.lt_or_ge s.start pos with hlt | hge
  · have hc := List.getElem?_eq_getElem (l := code) (i := pos - 1) (by omega)
    rw [head?_reverse_window hlt hc, hc]
    simp
    omega
  · have hpos : pos = s.start := by omega
    subst hpos
    rw [Code.window_of_le (Nat.le_refl _)]
    rcases h.begins with hb | hb
    · simp [hb]
    · have : isIdentCell ',' = false := by decide
      simp [hb, this]

/-- The state of a cut after a cell, told by the depths of the scan. -/
def Commas.next (s : Commas) (pos : Nat) (previous : Option Char) (c : Char) : Commas :=
  if c == ',' && s.brackets == 0 && s.angles == 0 then
    { pieces := s.pieces ++ [⟨s.start, pos⟩], start := pos + 1 }
  else
    { s with brackets := Code.bracketDepth s.brackets c
             angles := Code.angleDepth s.angles previous c }

theorem commaTurn_eq {start stop pos : Nat} {s : Commas} {c : Char}
    (hinv : s.Inv code start stop pos) (hstop : stop ≤ code.length) :
    commaTurn code start s pos c =
      .ok (.go (s.next pos (code.window s.start pos).reverse.head? c) (pos + 1)) := by
  obtain ⟨h1, h2, h3⟩ := hinv.ordered
  have hprev := hinv.previous hstop
  unfold commaTurn
  split
  · rename_i hopen
    simp only [Bool.or_eq_true, beq_iff_eq] at hopen
    rcases hopen with (rfl | rfl) | rfl <;> rfl
  · split
    · rename_i hclose
      simp only [Bool.or_eq_true, beq_iff_eq] at hclose
      rcases hclose with (rfl | rfl) | rfl <;> rfl
    · split
      · rename_i hless
        obtain rfl : c = '<' := by simpa using hless
        have hnext : s.next pos (code.window s.start pos).reverse.head? '<' =
            { s with angles := if (code.window s.start pos).reverse.head?.any isIdentCell then
                        s.angles + 1 else s.angles } := rfl
        rw [hnext, hprev]
        split
        · rename_i hbefore
          have hd := List.getElem?_eq_getElem (l := code) (i := pos - 1) (by omega)
          rw [minus_eq (by omega), ok_bind, fetch_eq hd, ok_bind, hd]
          simp [hbefore]
        · rename_i hbefore
          simp [hbefore]
      · split
        · rename_i hgreater
          obtain rfl : c = '>' := by simpa using hgreater
          have hnext : s.next pos (code.window s.start pos).reverse.head? '>' =
              { s with angles := s.angles - 1 } := rfl
          rw [hnext]
          split
          · rename_i hangles
            rw [minus_eq hangles, ok_bind]
            rfl
          · rename_i hangles
            have hzero : s.angles - 1 = s.angles := by omega
            rw [hzero]
            rfl
        · rename_i hopen hclose hless hgreater
          have hb : Code.bracketDepth s.brackets c = s.brackets := by
            simp only [Code.bracketDepth, hopen, hclose]
            rfl
          have ha : Code.angleDepth s.angles (code.window s.start pos).reverse.head? c =
              s.angles := by
            simp only [Code.angleDepth, hless, hgreater]
            rfl
          rw [Commas.next, hb, ha]
          split <;> rfl

theorem commaRanges_eq {start stop : Nat} (hle : start ≤ stop) (hstop : stop ≤ code.length) :
    commaRanges code start stop = .ok (code.commaRanges start stop) := by
  have hanswer : code.commaRanges start stop = Commas.answer code stop { start } start := by
    simp [Commas.answer, Code.commaRanges, Code.commaPieces, Code.window_of_le]
  rw [hanswer]
  refine sweep_eq (Commas.answer code stop) (Commas.Inv code start stop) hstop
    (fun s pos hpos hinv => ?_) (fun s pos c hlt hc hinv => ?_)
    ⟨⟨Nat.le_refl _, Nat.le_refl _, hle⟩, .inl rfl⟩
  · have hat : pos = stop := Nat.le_antisymm hinv.ordered.2.2 hpos
    subst hat
    have hlen : (code.window s.start pos).length = pos - s.start := Code.length_window_of_le hstop
    simp only [Commas.answer, Code.window_of_le (Nat.le_refl _), Code.commaPiecesFrom, Code.spread,
      List.reverse_reverse, hlen, pure_eq_ok]
    rw [Nat.add_sub_cancel' hinv.ordered.2.1]
  · obtain ⟨h1, h2, h3⟩ := hinv.ordered
    refine .inr ⟨_, _, commaTurn_eq hinv hstop, Nat.lt_succ_self _, ?_⟩
    by_cases hcut : (c == ',' && s.brackets == 0 && s.angles == 0) = true
    · have hcomma : c = ',' := by simp_all
      subst hcomma
      have hlen : (code.window s.start pos).length = pos - s.start :=
        Code.length_window_of_le (by omega)
      simp only [Commas.next, hcut, if_true]
      refine ⟨⟨⟨by simp only; omega, Nat.le_refl _, hlt⟩, .inr (by simpa using hc)⟩, ?_⟩
      simp only [Commas.answer, Code.window_of_lt hlt hc, Code.commaPiecesFrom, hcut, if_true,
        Code.spread, Code.window_of_le (Nat.le_refl _), List.reverse_reverse, hlen,
        Nat.add_sub_cancel' h2, List.append_assoc]
      rfl
    · simp only [Commas.next, hcut, Bool.false_eq_true, if_false]
      refine ⟨⟨⟨h1, Nat.le_succ_of_le h2, hlt⟩, hinv.begins⟩, ?_⟩
      simp only [Commas.answer, Code.window_of_lt hlt hc, Code.commaPiecesFrom, hcut,
        Bool.false_eq_true, if_false, Code.window_succ h2 hc, List.reverse_append,
        List.reverse_singleton, List.singleton_append]

/-- The cell before a position of a search that began at `start`; a blank at the start. -/
def fetchBefore (code : Code) (start pos : Nat) : Guarded Char :=
  if start < pos then do fetch code (← minus pos 1) else return ' '

/-- A cell of a search for an assignment that began at `start`. -/
def assignTurn (code : Code) (start depth pos : Nat) (c : Char) :
    Guarded (Turn Nat (Option Nat)) :=
  if c == '(' || c == '[' || c == '{' then return .go (depth + 1) (pos + 1)
  else if c == ')' || c == ']' || c == '}' then return .go (depth - 1) (pos + 1)
  else if c == '=' && depth == 0 then do
    let previous ← fetchBefore code start pos
    let next := code[pos + 1]?.getD ' '
    return if Code.isComparison previous next then .go depth (pos + 1) else .done (some pos)
  else return .go depth (pos + 1)

/-- The position of the first assignment-like `=` between two positions. -/
def assignment (code : Code) (start stop : Nat) : Guarded (Option Nat) :=
  sweep code stop (assignTurn code start) (fun _ _ => return none) 0 start

/-- The cell before a position of a search that began at `start`. -/
def previousCell (code : Code) (start pos : Nat) : Char :=
  if start < pos then code[pos - 1]?.getD ' ' else ' '

theorem fetchBefore_eq (start : Nat) {pos : Nat} (hpos : pos ≤ code.length) :
    fetchBefore code start pos = .ok (previousCell code start pos) := by
  unfold fetchBefore previousCell
  split
  · have hd := List.getElem?_eq_getElem (l := code) (i := pos - 1) (by omega)
    rw [minus_eq (by omega), ok_bind, fetch_eq hd, hd]
    rfl
  · rfl

theorem assignTurn_eq {start depth pos : Nat} {c : Char} (hpos : pos < code.length) :
    assignTurn code start depth pos c =
      .ok (if c == '=' && depth == 0 &&
          !Code.isComparison (previousCell code start pos) (code[pos + 1]?.getD ' ') then
        .done (some pos) else .go (Code.bracketDepth depth c) (pos + 1)) := by
  unfold assignTurn
  split
  · rename_i hopen
    simp only [Bool.or_eq_true, beq_iff_eq] at hopen
    rcases hopen with (rfl | rfl) | rfl <;> rfl
  · split
    · rename_i hclose
      simp only [Bool.or_eq_true, beq_iff_eq] at hclose
      rcases hclose with (rfl | rfl) | rfl <;> rfl
    · rename_i hopen hclose
      have hdepth : Code.bracketDepth depth c = depth := by
        simp only [Code.bracketDepth, hopen, hclose]
        rfl
      rw [hdepth]
      split
      · rename_i heq
        rw [fetchBefore_eq start (Nat.le_of_lt hpos), ok_bind, heq, Bool.true_and, pure_eq_ok]
        cases Code.isComparison (previousCell code start pos) (code[pos + 1]?.getD ' ') <;> rfl
      · rename_i hne
        have hne : (c == '=' && depth == 0) = false := by simpa using hne
        rw [hne]
        rfl

theorem assignment_eq (start : Nat) {stop : Nat} (hstop : stop ≤ code.length) :
    assignment code start stop = .ok (code.assignment? start stop) := by
  have hstart : previousCell code start start = ' ' := if_neg (Nat.lt_irrefl _)
  rw [Code.assignment?, ← hstart]
  refine sweep_eq (fun depth pos => (Code.assignFrom code[stop]? (previousCell code start pos)
    depth (code.window pos stop)).map (pos + ·)) (fun _ pos => start ≤ pos) hstop
    (fun depth pos hle _ => ?_) (fun depth pos c hlt hc hle => ?_) (Nat.le_refl _)
  · simp [Code.window_of_le hle, Code.assignFrom]
  · have hnext : ((code.window (pos + 1) stop).head?.or code[stop]?).getD ' ' =
        code[pos + 1]?.getD ' ' := by
      rcases Nat.lt_or_ge (pos + 1) stop with h | h
      · have hd := List.getElem?_eq_getElem (l := code) (i := pos + 1) (by omega)
        rw [Code.window_of_lt h hd, hd]
        rfl
      · have hat : stop = pos + 1 := by omega
        rw [Code.window_of_le h, hat]
        rfl
    have hprevious : previousCell code start (pos + 1) = c := by
      simp only [previousCell, Nat.lt_succ_of_le hle, if_true, Nat.add_sub_cancel, hc]
      rfl
    rw [assignTurn_eq (by omega), Code.window_of_lt hlt hc, Code.assignFrom, hnext]
    split
    · exact .inl (by simp)
    · refine .inr ⟨_, _, rfl, Nat.lt_succ_self _, Nat.le_succ_of_le hle, ?_⟩
      rw [hprevious, Option.map_map, map_add_comp_succ]

/-- The distance to the first occurrence of a word. -/
def find? (word : Code) : Code → Option Nat
  | [] => none
  | c :: rest => if word.isPrefixOf (c :: rest) then some 0 else (find? word rest).map (· + 1)

/-- Whether no identifier goes on into the occurrence of a word at `pos`. -/
def beginsWord (code : Code) (pos : Nat) : Guarded Bool :=
  if pos == 0 then return true else return code.isBreak (← minus pos 1)

/-- The positions from `search` on at which `word` stands as a whole identifier. After each
occurrence, the text that follows it is cut off and searched. -/
def wordPositions (word : Code) (t : Text) (search : Nat) : Guarded (List Nat) := do
  let rest ← cut t ⟨search, t.size⟩
  match find? word rest.cells with
  | none => return []
  | some distance =>
    let pos := search + distance
    let next := pos + word.length
    let begins ← beginsWord t.cells pos
    if search < next ∧ next ≤ t.size then
      let others ← wordPositions word t next
      return if begins && Code.isBreak t.cells next then pos :: others else others
    else throw (.stalled search)
termination_by t.size - search

def containsWord (word : Code) (t : Text) : Guarded Bool := do
  return !(← wordPositions word t 0).isEmpty

theorem occurrencesFrom_skip (word : Code) (skip pos : Nat) (cells : Code) :
    Code.occurrencesFrom word skip pos cells =
      Code.occurrencesFrom word 0 (pos + skip) (cells.drop skip) := by
  induction skip generalizing pos cells with
  | zero => rfl
  | succ skip ih =>
    cases cells with
    | nil => rfl
    | cons c rest =>
      have hpos : pos + (skip + 1) = pos + 1 + skip := by omega
      rw [Code.occurrencesFrom, ih, List.drop_succ_cons, hpos]

theorem occurrencesFrom_of_find?_eq_none {word cells : Code} (pos : Nat)
    (h : find? word cells = none) : Code.occurrencesFrom word 0 pos cells = [] := by
  induction cells generalizing pos with
  | nil => rfl
  | cons c rest ih =>
    simp only [find?] at h
    split at h
    · cases h
    · rename_i hword
      simp only [Code.occurrencesFrom, hword, Bool.false_eq_true, if_false]
      exact ih _ (by simpa using h)

/-- The first occurrence of a word, and those in the cells after it. -/
theorem occurrencesFrom_of_find?_eq_some {word cells : Code} (hne : word ≠ []) {distance : Nat}
    (pos : Nat) (h : find? word cells = some distance) :
    word <+: cells.drop distance ∧
      Code.occurrencesFrom word 0 pos cells = (pos + distance) ::
        Code.occurrencesFrom word 0 (pos + distance + word.length)
          (cells.drop (distance + word.length)) := by
  induction cells generalizing pos distance with
  | nil => cases h
  | cons c rest ih =>
    simp only [find?] at h
    split at h
    · rename_i hword
      obtain rfl := Option.some.inj h
      obtain ⟨n, hn⟩ : ∃ n, word.length = n + 1 :=
        ⟨word.length - 1, by have := List.length_pos_iff.mpr hne; omega⟩
      refine ⟨List.isPrefixOf_iff_prefix.mp hword, ?_⟩
      simp only [Code.occurrencesFrom, hword, if_true, hn, Nat.add_sub_cancel, Nat.zero_add,
        Nat.add_zero, List.drop_succ_cons]
      rw [occurrencesFrom_skip]
      congr 2
      omega
    · rename_i hword
      obtain ⟨n, hn, rfl⟩ := Option.map_eq_some_iff.mp h
      obtain ⟨hpre, hrest⟩ := ih (pos + 1) hn
      have hdrop : n + 1 + word.length = n + word.length + 1 := by omega
      have hat : pos + 1 + n = pos + (n + 1) := by omega
      refine ⟨hpre, ?_⟩
      simp only [Code.occurrencesFrom, hword, Bool.false_eq_true, if_false]
      rw [hrest, hdrop, List.drop_succ_cons, hat]

theorem beginsWord_eq (code : Code) (pos : Nat) :
    beginsWord code pos = .ok (pos == 0 || code.isBreak (pos - 1)) := by
  unfold beginsWord
  split
  · rename_i h
    simp [h]
  · rename_i h
    have hpos : pos ≠ 0 := by simpa using h
    rw [minus_eq (by omega), ok_bind]
    simp [hpos]

theorem cut_rest {t : Text} {search : Nat} (h : t.isBoundary search = true) :
    ∃ rest, cut t ⟨search, t.size⟩ = .ok rest ∧ rest.cells = t.cells.drop search := by
  have hle := Text.le_size_of_isBoundary h
  refine ⟨t.slice search t.size, cut_eq ?_, ?_⟩
  · simp [Text.read, Nat.not_lt.mpr hle, h]
  · rw [Text.cells_slice h (Text.isBoundary_size t) hle, List.take_of_length_le (by simp)]

theorem wordPositions_from {word : Code} (hne : word ≠ []) (hword : ∀ c ∈ word, c.utf8Size = 1)
    {t : Text} {search : Nat} (hsearch : t.isBoundary search = true) :
    wordPositions word t search =
      .ok ((Code.occurrencesFrom word 0 search (t.cells.drop search)).filter fun pos =>
        (pos == 0 || Code.isBreak t.cells (pos - 1)) &&
          Code.isBreak t.cells (pos + word.length)) := by
  induction hn : t.size - search using Nat.strongRecOn generalizing search with
  | ind n ih =>
    obtain ⟨rest, hcut, hrest⟩ := cut_rest hsearch
    rw [wordPositions, hcut, ok_bind, hrest]
    cases hfind : find? word (t.cells.drop search) with
    | none => simp [occurrencesFrom_of_find?_eq_none search hfind]
    | some distance =>
      obtain ⟨⟨tail, htail⟩, hoccurrences⟩ := occurrencesFrom_of_find?_eq_some hne search hfind
      have hpos := List.length_pos_iff.mpr hne
      -- The word ends within the text, after a character of one byte.
      have hlast : t.cells[search + distance + (word.length - 1)]? = some (word.getLast hne) := by
        rw [← List.getElem?_drop, ← List.drop_drop, ← htail,
          List.getElem?_append_left (by omega), ← List.getLast?_eq_getElem?,
          List.getLast?_eq_getLast_of_ne_nil hne]
      have hnext := (Text.isBoundary_of_ascii_cell hlast (hword _ (List.getLast_mem hne))).2
      have hat : search + distance + (word.length - 1) + 1 = search + distance + word.length := by
        omega
      rw [hat] at hnext
      have hguard : search < search + distance + word.length ∧
          search + distance + word.length ≤ t.size :=
        ⟨by omega, Text.le_size_of_isBoundary hnext⟩
      simp only [beginsWord_eq, ok_bind, hguard, and_self, if_true]
      rw [ih (t.size - (search + distance + word.length)) (by omega) hnext rfl, hoccurrences,
        List.drop_drop, ← Nat.add_assoc search distance]
      simp only [ok_bind, pure_eq_ok, List.filter_cons]

theorem wordPositions_eq {word : Code} (hne : word ≠ []) (hword : ∀ c ∈ word, c.utf8Size = 1)
    (t : Text) : wordPositions word t 0 = .ok (Code.wordPositions word t.cells) := by
  simpa [Code.wordPositions] using wordPositions_from hne hword (Text.isBoundary_zero t)

theorem containsWord_eq {word : Code} (hne : word ≠ []) (hword : ∀ c ∈ word, c.utf8Size = 1)
    (t : Text) : containsWord word t = .ok (Code.containsWord word t.cells) := by
  simp [containsWord, wordPositions_eq hne hword, Code.containsWord]

end ClassRefactor.Guarded
