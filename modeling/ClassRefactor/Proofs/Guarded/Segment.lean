import ClassRefactor.Proofs.Code.Nest
import ClassRefactor.Proofs.Code.Segment
import ClassRefactor.Proofs.Guarded.Declaration

/-!
# Guarded segments

The cut of a class body into members and of a block into statements. Members are cut from where the
last one ended, and the blanks before a member are left out when it is complete; a statement begins
at its first cell that is no blank. Both cuts give the segments.
-/

namespace ClassRefactor.Guarded

/-- Judges the code after a block, with guarded steps. -/
abbrev Rule := (start after stop : Nat) → Guarded AfterBlock

/-- Whether a block that opens at `pos` belongs to an expression. -/
def opensExpression (code : Code) (start : Nat) (s : Segment.State) (pos : Nat) : Guarded Bool :=
  if s.braces == 0 && s.parens == 0 && !s.inExpression then do
    return (← assignment code start pos).isSome
  else return false

/-- Reads a cell of the segment that begins at `start`. -/
def advance (code : Code) (rule : Rule) (stop start : Nat) (s : Segment.State) (pos : Nat)
    (c : Char) : Guarded (Option Segment.State) :=
  let s := { s with start := some start }
  if c == '(' || c == '[' then return some { s with parens := s.parens + 1 }
  else if c == ')' || c == ']' then return some { s with parens := s.parens - 1 }
  else if c == '{' then do
    let opens ← opensExpression code start s pos
    return some { s with braces := s.braces + 1, inExpression := s.inExpression || opens }
  else if c == '}' then
    let s := { s with braces := s.braces - 1 }
    if s.braces == 0 && s.parens == 0 && !s.inExpression then do
      match ← rule start (pos + 1) stop with
      | .ends => return none
      | .continues => return some s
      | .expression => return some { s with inExpression := true }
    else return some s
  else if c == ';' && s.braces == 0 && s.parens == 0 then return none
  else return some s

theorem opensExpression_eq {code : Code} {start pos : Nat} {s : Segment.State}
    (hpos : pos ≤ code.length) :
    opensExpression code start s pos = .ok (s.braces == 0 && s.parens == 0 && !s.inExpression &&
      (code.assignment? start pos).isSome) := by
  unfold opensExpression
  split
  · rename_i h
    rw [assignment_eq start hpos, ok_bind, h]
    rfl
  · rename_i h
    have h : (s.braces == 0 && s.parens == 0 && !s.inExpression) = false := by simpa using h
    rw [h]
    rfl

theorem advance_eq {code : Code} {rule : Rule} {rule' : AfterBlock.Rule} {stop start pos : Nat}
    {s : Segment.State} {c : Char} (hpos : pos ≤ code.length)
    (hrule : c = '}' → rule start (pos + 1) stop = .ok (rule' start (pos + 1) stop)) :
    advance code rule stop start s pos c = .ok (Segment.advance code rule' stop start s pos c) := by
  simp only [advance, Segment.advance]
  split
  · rfl
  · split
    · rfl
    · split
      · rw [opensExpression_eq hpos]
        rfl
      · split
        · rename_i hclose
          split
          · rw [hrule (by simpa using hclose), ok_bind]
            cases rule' start (pos + 1) stop <;> rfl
          · rfl
        · split <;> rfl

/-- After a member's block, an `=` that is not `==` begins the initializer of a property. -/
def afterMemberBlock (code : Code) : Rule := fun _ after stop => do
  let next ← skipBlanks code after stop
  if next < stop then
    let c ← fetch code next
    return if c == '=' && code[next + 1]? != some '=' then .expression else .ends
  else return .ends

theorem afterMemberBlock_eq {code : Code} {stop : Nat} (hstop : stop ≤ code.length)
    (start after : Nat) :
    afterMemberBlock code start after stop = .ok (code.afterMemberBlock start after stop) := by
  rw [afterMemberBlock, skipBlanks_eq hstop, ok_bind, Code.afterMemberBlock]
  split
  · rename_i hlt
    have hc := List.getElem?_eq_getElem (Nat.lt_of_lt_of_le hlt hstop)
    rw [fetch_eq hc, ok_bind, hc, pure_eq_ok]
    simp [hlt]
  · rename_i hge
    simp [hge]

/-- Adds the member that ends at `stop` to those found, without the blanks before it. A stray `;`
is not a member. -/
def pushMember (code : Code) (found : List Range) (start stop : Nat) : Guarded (List Range) := do
  let start ← skipBlanks code start stop
  if stop ≤ start then return found
  else
    let length ← minus stop start
    if length == 1 then
      return if (← fetch code start) == ';' then found else found ++ [⟨start, stop⟩]
    else return found ++ [⟨start, stop⟩]

/-- The state of a cut into members. -/
structure Members where
  found : List Range := []
  /-- Where the last member ended. -/
  start : Nat
  state : Segment.State := {}

/-- A cell of a cut into members. -/
def memberTurn (code : Code) (stop : Nat) (m : Members) (pos : Nat) (c : Char) :
    Guarded (Turn Members (List Range)) := do
  match ← advance code (afterMemberBlock code) stop m.start m.state pos c with
  | none =>
    let found ← pushMember code m.found m.start (pos + 1)
    return .go { found, start := pos + 1 } (pos + 1)
  | some state => return .go { m with state } (pos + 1)

/-- The members of the class body between two positions. -/
def memberRanges (code : Code) (start stop : Nat) : Guarded (List Range) :=
  sweep code stop (memberTurn code stop) (fun m _ => pushMember code m.found m.start stop)
    { start } start

/-- Whether a segment is more than a stray `;`. -/
def isMember (code : Code) (r : Range) : Bool := !(r.length == 1 && code[r.start]? == some ';')

theorem pushMember_eq {code : Code} {stop : Nat} (hstop : stop ≤ code.length) (found : List Range)
    (start : Nat) :
    pushMember code found start stop =
      .ok (found ++ (if code.skipBlanks start stop < stop then
        [⟨code.skipBlanks start stop, stop⟩] else []).filter (isMember code)) := by
  rw [pushMember, skipBlanks_eq hstop, ok_bind]
  generalize code.skipBlanks start stop = start
  split
  · rename_i hle
    simp [Nat.not_lt.mpr hle]
  · rename_i hgt
    have hlt : start < stop := Nat.lt_of_not_le hgt
    have hc := List.getElem?_eq_getElem (Nat.lt_of_lt_of_le hlt hstop)
    rw [minus_eq (Nat.le_of_lt hlt), ok_bind, if_pos hlt]
    by_cases hone : stop - start = 1
    · rw [if_pos (by simpa using hone), fetch_eq hc, ok_bind]
      by_cases hsemicolon : code[start] = ';'
      · simp [isMember, Range.length, hone, hc, hsemicolon]
      · simp [isMember, Range.length, hone, hc, hsemicolon]
    · rw [if_neg (by simpa using hone)]
      simp [isMember, Range.length, hone]

theorem assignFrom_of_blank {p q : Char} (hp : isLayoutBlank p = true) (hq : isLayoutBlank q = true)
    (beyond : Option Char) (depth : Nat) (cells : Code) :
    Code.assignFrom beyond p depth cells = Code.assignFrom beyond q depth cells := by
  have hblank : ∀ {c : Char} (next : Char), isLayoutBlank c = true →
      Code.isComparison c next = (next == '=') := by
    intro c next hc
    simp only [isLayoutBlank, Bool.or_eq_true, beq_iff_eq] at hc
    rcases hc with (((rfl | rfl) | rfl) | rfl) | rfl <;> simp [Code.isComparison]
  cases cells with
  | nil => rfl
  | cons c rest => rw [Code.assignFrom, Code.assignFrom, hblank _ hp, hblank _ hq]

/-- Blanks at the front of a search for an assignment make no difference. -/
theorem assignment?_skipBlanks (code : Code) (start stop : Nat) :
    code.assignment? (code.skipBlanks start stop) stop = code.assignment? start stop := by
  obtain ⟨-, hdrop⟩ := window_run code isLayoutBlank start stop
  have hsplit := List.takeWhile_append_dropWhile (p := isLayoutBlank) (l := code.window start stop)
  rw [hdrop, ← Code.skipBlanks] at hsplit
  have hb : ∀ c ∈ (code.window start stop).takeWhile isLayoutBlank, isLayoutBlank c = true :=
    fun c hc => List.all_eq_true.mp List.all_takeWhile c hc
  have hlength : code.skipBlanks start stop =
      start + ((code.window start stop).takeWhile isLayoutBlank).length := rfl
  simp only [Code.assignment?]
  conv_rhs => rw [← hsplit]
  rw [hlength]
  generalize (code.window start stop).takeWhile isLayoutBlank = b at hb
  have hstack : Code.stackAfter [] b = some [] :=
    Code.stackAfter_of_isInert
      (fun c hc => Code.isInert_of_isWhite (isWhite_of_isLayoutBlank (hb c hc))) []
  have hlast : isLayoutBlank (b.getLast?.getD ' ') = true := by
    cases h : b.getLast? with
    | none => rfl
    | some c => exact hb c (List.mem_of_getLast? h)
  have hnested := Code.assignFrom_nested hstack code[stop]? ' ' 0
    (code.window (start + b.length) stop)
  rw [show 0 + Code.openBrackets [] = 0 from rfl] at hnested
  rw [hnested, assignFrom_of_blank hlast (by decide : isLayoutBlank ' ' = true), Option.map_map]
  congr 1
  funext n
  simp only [Function.comp]
  omega

/-- Blanks are passed over up to a cell, and over it if it is one too. -/
theorem skipBlanks_succ {code : Code} {start pos : Nat} {c : Char} (hle : start ≤ pos)
    (hc : code[pos]? = some c) :
    code.skipBlanks start (pos + 1) =
      if code.skipBlanks start pos = pos ∧ isLayoutBlank c = true then pos + 1
      else code.skipBlanks start pos := by
  have hbound := (List.getElem?_eq_some_iff.mp hc).1
  have hlen : (code.window start pos).length = pos - start :=
    Code.length_window_of_le (Nat.le_of_lt hbound)
  have hlead := Code.leading_le isLayoutBlank (code.window start pos)
  have hall : ((code.window start pos).takeWhile isLayoutBlank).length =
      (code.window start pos).length ↔ start + Code.leading isLayoutBlank (code.window start pos) =
        pos := by
    rw [hlen, Code.leading]
    omega
  rw [Code.skipBlanks, Code.window_succ hle hc, Code.leading, List.takeWhile_append]
  simp only [Code.skipBlanks, hall]
  by_cases hp : start + Code.leading isLayoutBlank (code.window start pos) = pos
  · by_cases hb : isLayoutBlank c = true
    · simp only [hp, hb, and_self, if_true, List.length_append, hlen]
      simp [hb]
      omega
    · simp only [hp, hb, if_true, List.length_append, hlen]
      simp [hb]
      omega
  · simp only [hp, false_and, if_false]
    rfl

/-- The state of a cut into members, with the current member begun at its first cell. -/
def Members.segment (code : Code) (m : Members) (pos : Nat) : Segment.State :=
  { m.state with
    start := if code.skipBlanks m.start pos < pos then some (code.skipBlanks m.start pos)
      else none }

/-- The members found and those still to be cut off. -/
def Members.answer (code : Code) (stop : Nat) (m : Members) (pos : Nat) : List Range :=
  m.found ++ (Segment.rangesFrom code code.afterMemberBlock stop (m.segment code pos) pos
    (code.window pos stop)).filter (isMember code)

/-- As long as only blanks were seen, nothing is open. -/
structure Members.Inv (code : Code) (stop : Nat) (m : Members) (pos : Nat) : Prop where
  ordered : m.start ≤ pos ∧ pos ≤ stop
  fresh : code.skipBlanks m.start pos = pos →
    m.state.braces = 0 ∧ m.state.parens = 0 ∧ m.state.inExpression = false

/-- Where a member begins only matters for the search for an assignment. -/
theorem advance_start {code : Code} {stop start start' pos : Nat} {s : Segment.State} {c : Char}
    (hassign : code.assignment? start pos = code.assignment? start' pos) (first : Option Nat) :
    Segment.advance code code.afterMemberBlock stop start s pos c =
      (Segment.advance code code.afterMemberBlock stop start' { s with start := first } pos c).map
        fun next => { next with start := some start } := by
  simp only [Segment.advance, hassign]
  split
  · rfl
  · split
    · rfl
    · split
      · rfl
      · split
        · split
          · have hrule : code.afterMemberBlock start (pos + 1) stop =
                code.afterMemberBlock start' (pos + 1) stop := rfl
            rw [hrule]
            cases code.afterMemberBlock start' (pos + 1) stop <;> rfl
          · rfl
        · split <;> rfl

/-- A blank changes nothing in a segment. -/
theorem advance_blank {code : Code} {rule : AfterBlock.Rule} {stop start pos : Nat}
    {s : Segment.State} {c : Char} (hc : isLayoutBlank c = true) :
    Segment.advance code rule stop start s pos c = some { s with start := some start } := by
  simp only [isLayoutBlank, Bool.or_eq_true, beq_iff_eq] at hc
  rcases hc with (((rfl | rfl) | rfl) | rfl) | rfl <;> simp [Segment.advance]

/-- What a turn of a cut into members leads to: it goes on past the cell, and the members found and
still to be cut off are the same. -/
theorem memberTurn_spec {code : Code} {stop pos : Nat} {m : Members} {c : Char}
    (hstop : stop ≤ code.length) (hlt : pos < stop) (hc : code[pos]? = some c)
    (hinv : m.Inv code stop pos) :
    ∃ m', memberTurn code stop m pos c = .ok (.go m' (pos + 1)) ∧ m'.Inv code stop (pos + 1) ∧
      m.answer code stop pos = m'.answer code stop (pos + 1) := by
  obtain ⟨h1, h2⟩ := hinv.ordered
  have hblank := skipBlanks_succ h1 hc
  have hbound := (Code.run_spec isLayoutBlank h1 (by omega : pos ≤ code.length)).1
  rw [← Code.skipBlanks] at hbound
  have hadvance : advance code (afterMemberBlock code) stop m.start m.state pos c =
      .ok (Segment.advance code code.afterMemberBlock stop m.start m.state pos c) :=
    advance_eq (by omega) fun _ => afterMemberBlock_eq hstop m.start (pos + 1)
  rw [memberTurn, hadvance, ok_bind]
  by_cases hskip : code.skipBlanks m.start pos = pos ∧ isLayoutBlank c = true
  · rw [if_pos hskip] at hblank
    rw [advance_blank hskip.2]
    refine ⟨_, rfl, ⟨⟨Nat.le_succ_of_le h1, hlt⟩, fun _ => hinv.fresh hskip.1⟩, ?_⟩
    simp only [Members.answer, Members.segment, hblank, hskip.1, Nat.lt_irrefl, if_false,
      Code.window_of_lt hlt hc]
    rw [Segment.rangesFrom]
    simp only [Option.isNone_none, hskip.2, Bool.and_self, if_true]
  · rw [if_neg hskip] at hblank
    -- The member begins at its first cell that is no blank, which may be this one.
    have hstart : (m.segment code pos).start.getD pos = code.skipBlanks m.start pos := by
      simp only [Members.segment]
      split
      · rfl
      · simp only [Option.getD_none]
        omega
    have hbegun : ((m.segment code pos).start.isNone && isLayoutBlank c) = false := by
      simp only [Members.segment]
      split
      · rfl
      · rename_i hnot
        have hat : code.skipBlanks m.start pos = pos := by omega
        simpa [hat] using hskip
    have hnext : Segment.advance code code.afterMemberBlock stop m.start m.state pos c =
        (Segment.advance code code.afterMemberBlock stop (code.skipBlanks m.start pos)
          (m.segment code pos) pos c).map fun next => { next with start := some m.start } :=
      advance_start (assignment?_skipBlanks code m.start pos).symm (m.segment code pos).start
    have hcut : m.answer code stop pos = m.found ++
        (match Segment.advance code code.afterMemberBlock stop (code.skipBlanks m.start pos)
            (m.segment code pos) pos c with
          | none => Range.mk (code.skipBlanks m.start pos) (pos + 1) ::
              Segment.rangesFrom code code.afterMemberBlock stop {} (pos + 1)
                (code.window (pos + 1) stop)
          | some s => Segment.rangesFrom code code.afterMemberBlock stop s (pos + 1)
              (code.window (pos + 1) stop)).filter (isMember code) := by
      rw [Members.answer, Code.window_of_lt hlt hc, Segment.rangesFrom, hbegun, hstart]
      rfl
    rw [hcut, hnext]
    cases hadv : Segment.advance code code.afterMemberBlock stop (code.skipBlanks m.start pos)
        (m.segment code pos) pos c with
    | none =>
      simp only [Option.map_none]
      rw [pushMember_eq (by omega), ok_bind, hblank, if_pos (by omega)]
      have hself : code.skipBlanks (pos + 1) (pos + 1) = pos + 1 := by
        simp [Code.skipBlanks, Code.window_of_le, Code.leading]
      refine ⟨_, rfl, ⟨⟨Nat.le_refl _, hlt⟩, fun _ => ⟨rfl, rfl, rfl⟩⟩, ?_⟩
      simp only [Members.answer, Members.segment, hself, Nat.lt_irrefl, if_false]
      rw [List.append_assoc, ← List.filter_append]
      rfl
    | some next =>
      have hkeep := Segment.start_of_advance_eq_some hadv
      refine ⟨_, rfl, ⟨⟨Nat.le_succ_of_le h1, hlt⟩, fun hfresh => ?_⟩, ?_⟩
      · rw [hblank] at hfresh
        omega
      · have hsegment : Members.segment code
            { m with state := { next with start := some m.start } } (pos + 1) = next := by
          simp only [Members.segment, hblank]
          rw [if_pos (by omega), ← hkeep]
        rw [Members.answer, hsegment]

theorem memberRanges_eq {code : Code} {start stop : Nat} (hle : start ≤ stop)
    (hstop : stop ≤ code.length) :
    memberRanges code start stop = .ok (code.memberRanges start stop) := by
  have hanswer : code.memberRanges start stop = Members.answer code stop { start } start := by
    have hself : code.skipBlanks start start = start := by
      simp [Code.skipBlanks, Code.window_of_le, Code.leading]
    simp only [Members.answer, Members.segment, hself, Nat.lt_irrefl, if_false, List.nil_append]
    rfl
  rw [hanswer]
  refine sweep_eq (Members.answer code stop) (Members.Inv code stop) hstop
    (fun m pos hpos hinv => ?_) (fun m pos c hlt hc hinv => ?_)
    ⟨⟨Nat.le_refl _, hle⟩, fun _ => ⟨rfl, rfl, rfl⟩⟩
  · have hat : pos = stop := Nat.le_antisymm hinv.ordered.2 hpos
    subst hat
    rw [pushMember_eq hstop, Members.answer, Code.window_of_le (Nat.le_refl _), Segment.rangesFrom]
    simp only [Members.segment]
    split <;> rfl
  · obtain ⟨m', hturn, hinv', hanswer'⟩ := memberTurn_spec hstop hlt hc hinv
    exact .inr ⟨m', pos + 1, hturn, Nat.lt_succ_self _, hinv', hanswer'⟩

/-- The end of the word at `next`, or `stop` if nothing stands before it. -/
def wordEnd (code : Code) (next stop : Nat) : Guarded Nat :=
  if next < stop then identEnd code next stop else return stop

/-- After a statement's block, `else`, `catch` and `finally` carry the statement on, and so does
`while` if the statement began with `do`. -/
def afterStatementBlock (t : Text) : Rule := fun start after stop => do
  let next ← skipBlanks t.cells after stop
  let word ← cutCells t ⟨next, ← wordEnd t.cells next stop⟩
  if word == "else".toList || word == "catch".toList || word == "finally".toList then
    return .continues
  else if word == "while".toList then
    let statement ← cutCells t ⟨start, t.size⟩
    return if "do".toList.isPrefixOf statement && Code.isBreak t.cells (start + 2) then .continues
      else .ends
  else return .ends

theorem afterStatementBlock_eq {t : Text} {start after stop : Nat} (hle : after ≤ stop)
    (hstart : Code.Seam t.cells start) (hafter : Code.Seam t.cells after)
    (hstop : Code.Seam t.cells stop) :
    afterStatementBlock t start after stop =
      .ok (Code.afterStatementBlock t.cells start after stop) := by
  obtain ⟨-, hn2, hn3⟩ := Code.skipBlanks_spec hle hafter hstop
  rw [afterStatementBlock, skipBlanks_eq hstop.le, ok_bind]
  simp only [Code.afterStatementBlock]
  generalize Code.skipBlanks t.cells after stop = next at hn2 hn3
  have hend : wordEnd t.cells next stop = .ok (Code.identEnd t.cells next stop) := by
    unfold wordEnd
    split
    · exact identEnd_eq hstop.le next
    · have hat : next = stop := by omega
      simp [hat, Code.identEnd, Code.window_of_le, Code.leading]
  have hword : Code.Fits t.cells ⟨next, Code.identEnd t.cells next stop⟩ :=
    ⟨Nat.le_add_right .., hn3, Code.seam_run isIdentCell hn2 hn3 hstop⟩
  have hrest : cutCells t ⟨start, t.size⟩ = .ok (t.cells.drop start) := by
    have hsize : Code.Seam t.cells t.size := by simpa using Code.seam_length t.cells
    rw [cutCells_eq ⟨by simpa using hstart.le, hstart, hsize⟩, ← Text.length_cells,
      Code.window_length]
  rw [hend, ok_bind, cutCells_eq hword, ok_bind, hrest]
  split
  · rfl
  · cases hwhile : Code.window t.cells next (Code.identEnd t.cells next stop) == "while".toList with
    | false => simp only [Bool.false_eq_true, if_false, Bool.false_and, pure_eq_ok]
    | true => simp only [if_true, Bool.true_and, ok_bind, pure_eq_ok]

/-- A cell of a cut into statements. -/
def statementTurn (t : Text) (stop : Nat) (s : List Range × Segment.State) (pos : Nat) (c : Char) :
    Guarded (Turn (List Range × Segment.State) (List Range)) :=
  if s.2.start.isNone && isLayoutBlank c then return .go s (pos + 1)
  else do
    let start := s.2.start.getD pos
    match ← advance t.cells (afterStatementBlock t) stop start s.2 pos c with
    | none => return .go (s.1 ++ [← range start (pos + 1)], {}) (pos + 1)
    | some next => return .go (s.1, next) (pos + 1)

/-- Adds the statement that runs to the end of its block, without the blanks after it. -/
def lastStatement (code : Code) (stop : Nat) (s : List Range × Segment.State) :
    Guarded (List Range) :=
  match s.2.start with
  | none => return s.1
  | some start => return s.1 ++ [← range start (← trimBlanks code start stop)]

/-- The statements of the block between two positions, without blanks at their ends. -/
def statementRanges (t : Text) (start stop : Nat) : Guarded (List Range) :=
  sweep t.cells stop (statementTurn t stop) (fun s _ => lastStatement t.cells stop s) ([], {}) start

/-- A segment without the blanks at its end. -/
def withoutBlanks (code : Code) (r : Range) : Range := ⟨r.start, code.trimBlanks r.start r.stop⟩

/-- The statements found and those still to be cut off. -/
def statementAnswer (code : Code) (stop : Nat) (s : List Range × Segment.State) (pos : Nat) :
    List Range :=
  s.1 ++ (Segment.rangesFrom code code.afterStatementBlock stop s.2 pos
    (code.window pos stop)).map (withoutBlanks code)

/-- A statement that was begun begins at a seam; one that was not will. -/
structure StatementInv (code : Code) (stop : Nat) (s : Segment.State) (pos : Nat) : Prop where
  le : pos ≤ stop
  fresh : s.start = none → code.Loose pos
  begun : ∀ start, s.start = some start → start < pos ∧ code.Seam start

/-- Nothing is trimmed from what ends in a cell that is no blank. -/
theorem trimBlanks_succ {code : Code} {start pos : Nat} {c : Char} (hle : start ≤ pos)
    (hc : code[pos]? = some c) (hblank : isLayoutBlank c = false) :
    code.trimBlanks start (pos + 1) = pos + 1 := by
  rw [Code.trimBlanks, Code.window_succ hle hc, Code.trailing, List.reverse_append,
    List.reverse_singleton, List.singleton_append, Code.leading_cons, hblank]
  rfl

/-- What a turn of a cut into statements leads to. -/
theorem statementTurn_spec {t : Text} {stop pos : Nat} {s : List Range × Segment.State} {c : Char}
    (hstop : Code.Seam t.cells stop) (hlt : pos < stop) (hc : t.cells[pos]? = some c)
    (hinv : StatementInv t.cells stop s.2 pos) :
    ∃ s', statementTurn t stop s pos c = .ok (.go s' (pos + 1)) ∧
      StatementInv t.cells stop s'.2 (pos + 1) ∧
      statementAnswer t.cells stop s pos = statementAnswer t.cells stop s' (pos + 1) := by
  unfold statementTurn
  split
  · rename_i hskip
    refine ⟨_, rfl, ?_, ?_⟩
    · simp only [Bool.and_eq_true, Option.isNone_iff_eq_none] at hskip
      exact ⟨hlt, fun _ => Code.loose_of_blank hc hskip.2, by simp [hskip.1]⟩
    · rw [statementAnswer, Code.window_of_lt hlt hc, Segment.rangesFrom, if_pos hskip]
      rfl
  · rename_i hskip
    -- The statement begins here, or began at a seam before.
    have hbegin : s.2.start.getD pos < pos + 1 ∧ Code.Seam t.cells (s.2.start.getD pos) := by
      cases hs : s.2.start with
      | none =>
        have hblank : isLayoutBlank c = false := by simpa [hs] using hskip
        exact ⟨Nat.lt_succ_self _, (hinv.fresh hs).seam hc hblank⟩
      | some start =>
        obtain ⟨h1, h2⟩ := hinv.begun start hs
        exact ⟨Nat.lt_succ_of_lt h1, h2⟩
    have hadvance : advance t.cells (afterStatementBlock t) stop (s.2.start.getD pos) s.2 pos c =
        .ok (Segment.advance t.cells (Code.afterStatementBlock t.cells) stop
          (s.2.start.getD pos) s.2 pos c) :=
      advance_eq (by have := hstop.le; omega) fun hclose =>
        afterStatementBlock_eq hlt hbegin.2 (Code.seam_of_solid (hclose ▸ hc) (by decide)).2 hstop
    have hanswer : statementAnswer t.cells stop s pos = s.1 ++
        (match Segment.advance t.cells (Code.afterStatementBlock t.cells) stop
            (s.2.start.getD pos) s.2 pos c with
          | none => Range.mk (s.2.start.getD pos) (pos + 1) ::
              Segment.rangesFrom t.cells (Code.afterStatementBlock t.cells) stop {} (pos + 1)
                (Code.window t.cells (pos + 1) stop)
          | some next =>
            Segment.rangesFrom t.cells (Code.afterStatementBlock t.cells) stop next (pos + 1)
              (Code.window t.cells (pos + 1) stop)).map (withoutBlanks t.cells) := by
      rw [statementAnswer, Code.window_of_lt hlt hc]
      exact congrArg (fun rs => s.1 ++ List.map (withoutBlanks t.cells) rs) (if_neg hskip)
    simp only [hadvance, ok_bind, hanswer]
    generalize s.2.start.getD pos = start at hbegin
    obtain ⟨h1, h2⟩ := hbegin
    cases hadv : Segment.advance t.cells (Code.afterStatementBlock t.cells) stop start s.2 pos c
      with
    | none =>
      have hend := Segment.terminator_of_advance_eq_none hadv
      have hblank : isLayoutBlank c = false := by rcases hend with rfl | rfl <;> rfl
      have hsolid : isSolid c = true := by rcases hend with rfl | rfl <;> decide
      simp only [range_eq (Nat.le_of_lt h1), ok_bind]
      refine ⟨_, rfl, ⟨hlt, fun _ => (Code.seam_of_solid hc hsolid).2.loose, by simp⟩, ?_⟩
      simp only [statementAnswer, List.map_cons, withoutBlanks,
        trimBlanks_succ (Nat.le_of_lt_succ h1) hc hblank, List.append_assoc]
      rfl
    | some next =>
      have hkeep := Segment.start_of_advance_eq_some hadv
      refine ⟨_, rfl, ⟨hlt, by simp [hkeep], fun st hst => ?_⟩, rfl⟩
      rw [hkeep] at hst
      obtain rfl := Option.some.inj hst
      exact ⟨h1, h2⟩

theorem statementRanges_eq {t : Text} {start stop : Nat} (hle : start ≤ stop)
    (hstart : Code.Seam t.cells start) (hstop : Code.Seam t.cells stop) :
    statementRanges t start stop = .ok (Code.statementRanges t.cells start stop) := by
  refine sweep_eq (statementAnswer t.cells stop) (fun s pos => StatementInv t.cells stop s.2 pos)
    hstop.le (fun s pos hpos hinv => ?_) (fun s pos c hlt hc hinv => ?_)
    ⟨hle, fun _ => hstart.loose, by simp⟩
  · have hat : pos = stop := Nat.le_antisymm hinv.le hpos
    subst hat
    rw [lastStatement, statementAnswer, Code.window_of_le (Nat.le_refl _), Segment.rangesFrom]
    cases hs : s.2.start with
    | none => simp
    | some start =>
      obtain ⟨hlt, -⟩ := hinv.begun start hs
      have htrim : start ≤ Code.trimBlanks t.cells start pos :=
        (Code.runBack_spec isLayoutBlank (Nat.le_of_lt hlt) hstop.le).1
      simp only [trimBlanks_eq (Nat.le_of_lt hlt) hstop.le, ok_bind, range_eq htrim]
      rfl
  · obtain ⟨s', hturn, hinv', hanswer⟩ := statementTurn_spec hstop hlt hc hinv
    exact .inr ⟨s', pos + 1, hturn, Nat.lt_succ_self _, hinv', hanswer⟩

end ClassRefactor.Guarded
