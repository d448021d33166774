import ClassRefactor.Proofs.Code.Local
import ClassRefactor.Proofs.Text.Strip

/-!
# Nested delimiters

Code in which parentheses, brackets and type argument lists close in the order in which they open,
and which has no brace, `;` or `=`. A scan that counts delimiters leaves such code with the count it
came with, whatever the count was, so such code may be exchanged for other such code under it.
-/

namespace ClassRefactor.Code

/-- The delimiters still to come after a cell, innermost first. There is no answer if the cell
closes something else than the innermost, or belongs in no such code. -/
def push (stack : List Char) (c : Char) : Option (List Char) :=
  if c == '(' then some (')' :: stack)
  else if c == '[' then some (']' :: stack)
  else if c == '<' then some ('>' :: stack)
  else if c == ')' || c == ']' || c == '>' then
    match stack with
    | [] => none
    | d :: stack => if c == d then some stack else none
  else if c == '{' || c == '}' || c == ';' || c == '=' then none
  else some stack

/-- The delimiters still to come after some code. -/
def stackAfter (stack : List Char) : Code → Option (List Char)
  | [] => some stack
  | c :: rest => (push stack c).bind fun stack => stackAfter stack rest

/-- A cell that no scan for structure stops at or counts. -/
def isInert (c : Char) : Bool :=
  c != '(' && c != ')' && c != '[' && c != ']' && c != '<' && c != '>' && c != '{' && c != '}' &&
    c != ';' && c != '='

/-- What a cell does to the delimiters still to come. -/
theorem push_cases {stack stack' : List Char} {c : Char} (h : push stack c = some stack') :
    (c = '(' ∧ stack' = ')' :: stack) ∨ (c = '[' ∧ stack' = ']' :: stack) ∨
      (c = '<' ∧ stack' = '>' :: stack) ∨ (c = ')' ∧ stack = ')' :: stack') ∨
      (c = ']' ∧ stack = ']' :: stack') ∨ (c = '>' ∧ stack = '>' :: stack') ∨
      (isInert c = true ∧ stack' = stack) := by
  unfold push at h
  split at h
  · rename_i hc
    exact .inl ⟨by simpa using hc, (Option.some.inj h).symm⟩
  · split at h
    · rename_i hc
      exact .inr (.inl ⟨by simpa using hc, (Option.some.inj h).symm⟩)
    · split at h
      · rename_i hc
        exact .inr (.inr (.inl ⟨by simpa using hc, (Option.some.inj h).symm⟩))
      · split at h
        · rename_i hc
          simp only [Bool.or_eq_true, beq_iff_eq] at hc
          cases stack with
          | nil => cases h
          | cons d rest =>
            simp only at h
            split at h
            · rename_i hd
              obtain rfl := Option.some.inj h
              obtain rfl : c = d := by simpa using hd
              rcases hc with (rfl | rfl) | rfl <;> simp
            · cases h
        · split at h
          · cases h
          · rename_i h1 h2 h3 h4 h5
            simp only [Bool.or_eq_true, beq_iff_eq, not_or] at h1 h2 h3 h4 h5
            refine .inr (.inr (.inr (.inr (.inr (.inr ⟨?_, (Option.some.inj h).symm⟩)))))
            simp [isInert, h1, h2, h3, h4, h5]

theorem push_of_isInert {c : Char} (h : isInert c = true) (stack : List Char) :
    push stack c = some stack := by
  simp only [isInert, Bool.and_eq_true, bne_iff_ne] at h
  simp [push, h]

theorem stackAfter_append (stack : List Char) (l r : Code) :
    stackAfter stack (l ++ r) = (stackAfter stack l).bind fun stack => stackAfter stack r := by
  induction l generalizing stack with
  | nil => rfl
  | cons c l ih =>
    simp only [List.cons_append, stackAfter]
    cases push stack c with
    | none => rfl
    | some stack => exact ih stack

theorem stackAfter_of_isInert {l : Code} (h : ∀ c ∈ l, isInert c = true) (stack : List Char) :
    stackAfter stack l = some stack := by
  induction l with
  | nil => rfl
  | cons c l ih =>
    simp only [stackAfter, push_of_isInert (h c List.mem_cons_self), Option.bind_some]
    exact ih fun d hd => h d (List.mem_cons_of_mem _ hd)

/-- What is still to come outside does not matter. -/
theorem stackAfter_weaken {stack stack' : List Char} {l : Code}
    (h : stackAfter stack l = some stack') (outer : List Char) :
    stackAfter (stack ++ outer) l = some (stack' ++ outer) := by
  induction l generalizing stack with
  | nil =>
    obtain rfl := Option.some.inj h
    rfl
  | cons c l ih =>
    obtain ⟨next, hpush, hnext⟩ := Option.bind_eq_some_iff.mp h
    have hpush' : push (stack ++ outer) c = some (next ++ outer) := by
      rcases push_cases hpush with ⟨rfl, rfl⟩ | ⟨rfl, rfl⟩ | ⟨rfl, rfl⟩ | ⟨rfl, rfl⟩ | ⟨rfl, rfl⟩ |
        ⟨rfl, rfl⟩ | ⟨hc, rfl⟩
      · rfl
      · rfl
      · rfl
      · rfl
      · rfl
      · rfl
      · exact push_of_isInert hc _
    simp only [stackAfter, hpush', Option.bind_some]
    exact ih hnext

theorem isInert_of_isWhite {c : Char} (h : isWhite c = true) : isInert c = true := by
  simp only [isInert, Bool.and_eq_true, bne_iff_ne]
  refine ⟨⟨⟨⟨⟨⟨⟨⟨⟨?_, ?_⟩, ?_⟩, ?_⟩, ?_⟩, ?_⟩, ?_⟩, ?_⟩, ?_⟩, ?_⟩ <;> rintro rfl <;>
    exact absurd h (by decide)

theorem isInert_of_isIdentCell {c : Char} (h : isIdentCell c = true) : isInert c = true := by
  simp only [isInert, Bool.and_eq_true, bne_iff_ne]
  refine ⟨⟨⟨⟨⟨⟨⟨⟨⟨?_, ?_⟩, ?_⟩, ?_⟩, ?_⟩, ?_⟩, ?_⟩, ?_⟩, ?_⟩, ?_⟩ <;> rintro rfl <;>
    exact absurd h (by decide)

/-- White space does not matter. -/
theorem stackAfter_strip (stack : List Char) (t : Text) :
    stackAfter stack t.strip = stackAfter stack t := by
  induction t generalizing stack with
  | nil => rfl
  | cons c t ih =>
    by_cases hc : isWhite c = true
    · have hstrip : Text.strip (c :: t) = Text.strip t := by simp [Text.strip, hc]
      rw [hstrip, ih, stackAfter, push_of_isInert (isInert_of_isWhite hc)]
      rfl
    · have hstrip : Text.strip (c :: t) = c :: Text.strip t := by simp [Text.strip, hc]
      simp only [hstrip, stackAfter, ih]

/-! Scans. -/

/-- The number of parentheses and brackets still to be closed. -/
def openBrackets (stack : List Char) : Nat := stack.count ')' + stack.count ']'

/-- The number of type argument lists still to be closed. -/
def openAngles (stack : List Char) : Nat := stack.count '>'

/-- A distance past some cells, counted from one cell before them. -/
theorem map_length_cons (c : Char) (l : Code) (distance : Option Nat) :
    (distance.map (l.length + ·)).map (· + 1) = distance.map ((c :: l).length + ·) := by
  cases distance with
  | none => rfl
  | some n => simp only [Option.map_some, List.length_cons]; congr 1; omega

theorem closeFrom_other {opening closing c : Char} (hopen : c ≠ opening) (hclose : c ≠ closing)
    (depth : Nat) (rest : Code) :
    closeFrom opening closing depth (c :: rest) =
      (closeFrom opening closing depth rest).map (· + 1) := by
  rw [closeFrom.eq_def]
  simp [hopen, hclose]

theorem closeFrom_of_not_mem {opening closing : Char} {l : Code} (hopen : opening ∉ l)
    (hclose : closing ∉ l) (depth : Nat) (rest : Code) :
    closeFrom opening closing depth (l ++ rest) =
      (closeFrom opening closing depth rest).map (l.length + ·) := by
  induction l with
  | nil => simp
  | cons c l ih =>
    simp only [List.mem_cons, not_or] at hopen hclose
    rw [List.cons_append, closeFrom_other (Ne.symm hopen.1) (Ne.symm hclose.1),
      ih hopen.2 hclose.2, map_length_cons]

/-- A delimiter and the one that closes it. -/
def Pair (opening closing : Char) : Prop :=
  (opening = '(' ∧ closing = ')') ∨ (opening = '[' ∧ closing = ']') ∨
    (opening = '<' ∧ closing = '>')

section

variable {opening closing c : Char} {stack next : List Char} (hpair : Pair opening closing)
include hpair

theorem Pair.ne : opening ≠ closing := by
  rcases hpair with ⟨rfl, rfl⟩ | ⟨rfl, rfl⟩ | ⟨rfl, rfl⟩ <;> decide

theorem Pair.push_opening (h : push stack opening = some next) : next = closing :: stack := by
  rcases hpair with ⟨rfl, rfl⟩ | ⟨rfl, rfl⟩ | ⟨rfl, rfl⟩ <;> exact (Option.some.inj h).symm

theorem Pair.push_closing (h : push stack closing = some next) : stack = closing :: next := by
  rcases hpair with ⟨rfl, rfl⟩ | ⟨rfl, rfl⟩ | ⟨rfl, rfl⟩ <;> simpa [isInert] using push_cases h

theorem Pair.count_push (hopen : c ≠ opening) (hclose : c ≠ closing)
    (h : push stack c = some next) : next.count closing = stack.count closing := by
  rcases push_cases h with ⟨rfl, rfl⟩ | ⟨rfl, rfl⟩ | ⟨rfl, rfl⟩ | ⟨rfl, rfl⟩ | ⟨rfl, rfl⟩ |
    ⟨rfl, rfl⟩ | ⟨-, rfl⟩ <;>
    rcases hpair with ⟨rfl, rfl⟩ | ⟨rfl, rfl⟩ | ⟨rfl, rfl⟩ <;> simp at hopen hclose ⊢

end

section

variable {stack stack' : List Char} {l : Code} (h : stackAfter stack l = some stack')
include h

theorem closeFrom_nested {opening closing : Char} (hpair : Pair opening closing) (depth : Nat)
    (rest : Code) :
    closeFrom opening closing (depth + stack.count closing) (l ++ rest) =
      (closeFrom opening closing (depth + stack'.count closing) rest).map (l.length + ·) := by
  induction l generalizing stack with
  | nil =>
    obtain rfl := Option.some.inj h
    simp
  | cons c l ih =>
    obtain ⟨next, hpush, hnext⟩ := Option.bind_eq_some_iff.mp h
    have hstep : closeFrom opening closing (depth + stack.count closing) (c :: (l ++ rest)) =
        (closeFrom opening closing (depth + next.count closing) (l ++ rest)).map (· + 1) := by
      by_cases hopen : c = opening
      · subst hopen
        rw [hpair.push_opening hpush, List.count_cons_self, closeFrom.eq_def]
        simp [Nat.add_assoc]
      · by_cases hclose : c = closing
        · subst hclose
          rw [hpair.push_closing hpush, List.count_cons_self, ← Nat.add_assoc, closeFrom.eq_def]
          simp [Ne.symm hpair.ne]
        · rw [closeFrom_other hopen hclose, hpair.count_push hopen hclose hpush]
    rw [List.cons_append, hstep, ih hnext, map_length_cons]

/-- Such code has no brace, `;` or `=`. -/
theorem not_mem_of_stackAfter : '{' ∉ l ∧ '}' ∉ l ∧ ';' ∉ l ∧ '=' ∉ l := by
  induction l generalizing stack with
  | nil => simp
  | cons c l ih =>
    obtain ⟨next, hpush, hnext⟩ := Option.bind_eq_some_iff.mp h
    have hc : c ≠ '{' ∧ c ≠ '}' ∧ c ≠ ';' ∧ c ≠ '=' := by
      refine ⟨?_, ?_, ?_, ?_⟩ <;> rintro rfl <;> simp [push] at hpush
    have hl := ih hnext
    simp only [List.mem_cons, not_or]
    exact ⟨⟨Ne.symm hc.1, hl.1⟩, ⟨Ne.symm hc.2.1, hl.2.1⟩, ⟨Ne.symm hc.2.2.1, hl.2.2.1⟩,
      ⟨Ne.symm hc.2.2.2, hl.2.2.2⟩⟩

omit h in
theorem bracketDepth_of_push {next : List Char} {c : Char} (hpush : push stack c = some next)
    (depth : Nat) :
    bracketDepth (depth + openBrackets stack) c = depth + openBrackets next := by
  rcases push_cases hpush with ⟨rfl, rfl⟩ | ⟨rfl, rfl⟩ | ⟨rfl, rfl⟩ | ⟨rfl, rfl⟩ | ⟨rfl, rfl⟩ |
    ⟨rfl, rfl⟩ | ⟨hc, rfl⟩
  · simp [bracketDepth, openBrackets]; omega
  · simp [bracketDepth, openBrackets]; omega
  · simp [bracketDepth, openBrackets]
  · simp [bracketDepth, openBrackets]; omega
  · simp [bracketDepth, openBrackets]; omega
  · simp [bracketDepth, openBrackets]
  · simp only [isInert, Bool.and_eq_true, bne_iff_ne] at hc
    simp [bracketDepth, hc]

theorem assignFrom_nested (beyond : Option Char) (previous : Char) (depth : Nat) (rest : Code) :
    assignFrom beyond previous (depth + openBrackets stack) (l ++ rest) =
      (assignFrom beyond (l.getLast?.getD previous) (depth + openBrackets stack') rest).map
        (l.length + ·) := by
  induction l generalizing stack previous with
  | nil =>
    obtain rfl := Option.some.inj h
    simp
  | cons c l ih =>
    have hne : c ≠ '=' := by
      have := (not_mem_of_stackAfter h).2.2.2
      simp only [List.mem_cons, not_or] at this
      exact Ne.symm this.1
    obtain ⟨next, hpush, hnext⟩ := Option.bind_eq_some_iff.mp h
    have hlast : (c :: l).getLast?.getD previous = l.getLast?.getD c := by
      rw [List.getLast?_cons]
      rfl
    rw [List.cons_append, assignFrom, beq_eq_false_iff_ne.mpr hne, bracketDepth_of_push hpush,
      ih hnext, map_length_cons, hlast]
    rfl

end

/-! Commas. -/

/-- Every comma stands inside delimiters, and every `<` right after an identifier. -/
def tight (stack : List Char) (previous : Option Char) : Code → Bool
  | [] => true
  | c :: rest =>
    (c != ',' || !stack.isEmpty) && (c != '<' || previous.any isIdentCell) &&
      ((push stack c).any fun stack => tight stack (some c) rest)

theorem tight_congr {previous previous' : Option Char}
    (h : previous.any isIdentCell = previous'.any isIdentCell) (stack : List Char) (l : Code) :
    tight stack previous l = tight stack previous' l := by
  cases l with
  | nil => rfl
  | cons c l => rw [tight, tight, h]

theorem tight_append {stack stack' : List Char} {previous : Option Char} {l r : Code}
    (h : stackAfter stack l = some stack') :
    tight stack previous (l ++ r) =
      (tight stack previous l && tight stack' (l.getLast?.or previous) r) := by
  induction l generalizing stack previous with
  | nil =>
    obtain rfl := Option.some.inj h
    rfl
  | cons c l ih =>
    obtain ⟨next, hpush, hnext⟩ := Option.bind_eq_some_iff.mp h
    have hlast : (l.getLast?.or (some c)) = (c :: l).getLast?.or previous := by
      rw [List.getLast?_cons]
      cases l.getLast? <;> rfl
    simp only [List.cons_append, tight, hpush, Option.any_some, ih hnext, hlast, Bool.and_assoc]

/-- Inside further delimiters commas matter less. -/
theorem tight_weaken {stack : List Char} {previous : Option Char} {l : Code}
    (h : tight stack previous l = true) (outer : List Char) :
    tight (stack ++ outer) previous l = true := by
  induction l generalizing stack previous with
  | nil => rfl
  | cons c l ih =>
    simp only [tight, Bool.and_eq_true, Option.any_eq_true] at h ⊢
    obtain ⟨⟨hcomma, hangle⟩, next, hpush, hnext⟩ := h
    have hpush' : stackAfter stack [c] = some next := by rw [stackAfter, hpush]; rfl
    have hweak := stackAfter_weaken hpush' outer
    refine ⟨⟨?_, hangle⟩, next ++ outer, by simpa [stackAfter] using hweak, ih hnext⟩
    simp only [Bool.or_eq_true, Bool.not_eq_true', List.isEmpty_eq_false_iff] at hcomma ⊢
    exact hcomma.imp_right fun hne => List.append_ne_nil_of_left_ne_nil hne _

/-- The stack holds closing delimiters only. -/
def Closers (stack : List Char) : Prop := ∀ c ∈ stack, c = ')' ∨ c = ']' ∨ c = '>'

theorem Closers.push {stack next : List Char} {c : Char} (h : Closers stack)
    (hpush : push stack c = some next) : Closers next := by
  have htail : ∀ d rest, stack = d :: rest → Closers rest := by
    rintro d rest rfl
    exact fun e he => h e (List.mem_cons_of_mem _ he)
  have hcons : ∀ d, (d = ')' ∨ d = ']' ∨ d = '>') → Closers (d :: stack) := by
    intro d hd e he
    rcases List.mem_cons.mp he with rfl | he
    · exact hd
    · exact h e he
  rcases push_cases hpush with ⟨-, rfl⟩ | ⟨-, rfl⟩ | ⟨-, rfl⟩ | ⟨-, hs⟩ | ⟨-, hs⟩ | ⟨-, hs⟩ |
    ⟨-, rfl⟩
  · exact hcons _ (by simp)
  · exact hcons _ (by simp)
  · exact hcons _ (by simp)
  · exact htail _ _ hs
  · exact htail _ _ hs
  · exact htail _ _ hs
  · exact h

theorem Closers.count_pos {stack : List Char} (h : Closers stack) (hne : stack ≠ []) :
    openBrackets stack ≠ 0 ∨ openAngles stack ≠ 0 := by
  cases stack with
  | nil => exact absurd rfl hne
  | cons c stack =>
    rcases h c List.mem_cons_self with rfl | rfl | rfl <;> simp [openBrackets, openAngles]

theorem angleDepth_of_push {stack next : List Char} {previous : Option Char} {c : Char}
    (hpush : push stack c = some next) (hangle : c = '<' → previous.any isIdentCell = true) :
    angleDepth (openAngles stack) previous c = openAngles next := by
  rcases push_cases hpush with ⟨rfl, rfl⟩ | ⟨rfl, rfl⟩ | ⟨rfl, rfl⟩ | ⟨rfl, rfl⟩ | ⟨rfl, rfl⟩ |
    ⟨rfl, rfl⟩ | ⟨hc, rfl⟩
  · simp [angleDepth, openAngles]
  · simp [angleDepth, openAngles]
  · simp [angleDepth, openAngles, hangle rfl]
  · simp [angleDepth, openAngles]
  · simp [angleDepth, openAngles]
  · simp [angleDepth, openAngles]
  · simp only [isInert, Bool.and_eq_true, bne_iff_ne] at hc
    simp [angleDepth, hc]

theorem commaPiecesFrom_tight {stack stack' : List Char} {l piece : Code} (hclosers : Closers stack)
    (h : stackAfter stack l = some stack') (htight : tight stack piece.head? l = true)
    (rest : Code) :
    commaPiecesFrom piece (openBrackets stack) (openAngles stack) (l ++ rest) =
      commaPiecesFrom (l.reverse ++ piece) (openBrackets stack') (openAngles stack') rest := by
  induction l generalizing stack piece with
  | nil =>
    obtain rfl := Option.some.inj h
    rfl
  | cons c l ih =>
    obtain ⟨next, hpush, hnext⟩ := Option.bind_eq_some_iff.mp h
    simp only [tight, hpush, Option.any_some, Bool.and_eq_true, Bool.or_eq_true, bne_iff_ne,
      Bool.not_eq_true', List.isEmpty_eq_false_iff] at htight
    obtain ⟨⟨hcomma, hangle⟩, htight⟩ := htight
    have hstay : (c == ',' && openBrackets stack == 0 && openAngles stack == 0) = false := by
      rw [Bool.eq_false_iff]
      intro hsplit
      simp only [Bool.and_eq_true, beq_iff_eq] at hsplit
      rcases hclosers.count_pos (hcomma.resolve_left (by simp [hsplit])) with h | h
      · exact h hsplit.1.2
      · exact h hsplit.2
    have hbrackets : bracketDepth (openBrackets stack) c = openBrackets next := by
      simpa using bracketDepth_of_push hpush 0
    have hangles := angleDepth_of_push hpush fun hc => hangle.resolve_left (by simp [hc])
    rw [List.cons_append, commaPiecesFrom, hstay, hbrackets, hangles]
    simp only [Bool.false_eq_true, ↓reduceIte]
    have hpiece : tight next (c :: piece).head? l = true := htight
    rw [ih (hclosers.push hpush) hnext hpiece, List.reverse_cons, List.append_assoc]
    rfl

/-- Code that is cut at no comma: all delimiters close, and each comma stands inside some. -/
structure Whole (l : Code) : Prop where
  closed : stackAfter [] l = some []
  tight : tight [] none l = true

/-- Code without delimiters and without commas is cut nowhere. -/
theorem whole_of_inert {l : Code} (hinert : ∀ c ∈ l, isInert c = true) (hcomma : ',' ∉ l) :
    Whole l := by
  refine ⟨stackAfter_of_isInert hinert [], ?_⟩
  have htight : ∀ previous, tight [] previous l = true := by
    induction l with
    | nil => exact fun _ => rfl
    | cons c l ih =>
      intro previous
      have hc := hinert c List.mem_cons_self
      simp only [List.mem_cons, not_or] at hcomma
      have hangle : c ≠ '<' := by rintro rfl; exact absurd hc (by decide)
      rw [tight, push_of_isInert hc, Option.any_some,
        ih (fun d hd => hinert d (List.mem_cons_of_mem _ hd)) hcomma.2]
      simp [Ne.symm hcomma.1, hangle]
  exact htight none

theorem whole_of_ident {l : Code} (h : ∀ c ∈ l, isIdentCell c = true) : Whole l :=
  whole_of_inert (fun c hc => isInert_of_isIdentCell (h c hc)) fun hmem =>
    absurd (h ',' hmem) (by decide)

theorem stackAfter_cons {stack next : List Char} {c : Char} (h : push stack c = some next)
    (l : Code) : stackAfter stack (c :: l) = stackAfter next l := by
  rw [stackAfter, h]
  rfl

/-- Code that closes all it opens leaves open what was open before. -/
theorem Whole.stackAfter {l : Code} (h : Whole l) (stack : List Char) :
    Code.stackAfter stack l = some stack :=
  stackAfter_weaken h.closed stack

theorem Whole.tight_within {l : Code} (h : Whole l) {previous : Option Char}
    (hprevious : previous.any isIdentCell = false) (stack : List Char) :
    Code.tight stack previous l = true := by
  have hnone : Code.tight stack none l = true := tight_weaken h.tight stack
  rw [← hnone]
  exact tight_congr hprevious _ _

theorem Whole.space {l : Code} (h : Whole l) : Whole (' ' :: l) := by
  refine ⟨h.closed, ?_⟩
  have htight : Code.tight [] (some ' ') l = true := h.tight_within (by decide) []
  simpa [Code.tight, push] using htight

/-- A type argument list does not begin where two pieces meet. -/
theorem Whole.append {l r : Code} (hl : Whole l) (hr : Whole r)
    (h : r.head? ≠ some '<' ∨ ∀ c, l.getLast? = some c → isIdentCell c = false) :
    Whole (l ++ r) := by
  have hright : Code.tight [] (l.getLast?.or none) r = true := by
    rcases h with h | h
    · cases r with
      | nil => rfl
      | cons c r =>
        have hc : (c != '<') = true := by simpa using h
        have htight := hr.tight
        rw [Code.tight, hc, Bool.true_or] at htight ⊢
        exact htight
    · refine hr.tight_within ?_ []
      rw [Option.any_eq_false]
      exact fun c hc => h c (by simpa using hc)
  refine ⟨?_, ?_⟩
  · rw [stackAfter_append, hl.closed]
    exact hr.closed
  · rw [tight_append hl.closed, hl.tight, hright]
    rfl

theorem stackAfter_commas {ls : List Code} (h : ∀ l ∈ ls, Whole l) (stack : List Char) :
    stackAfter stack (ls.flatMap (',' :: ·)) = some stack := by
  induction ls with
  | nil => rfl
  | cons l ls ih =>
    rw [List.flatMap_cons, List.cons_append, stackAfter_cons (push_of_isInert (by decide) _),
      stackAfter_append, (h l List.mem_cons_self).stackAfter]
    exact ih fun m hm => h m (List.mem_cons_of_mem _ hm)

/-- Commas may stand where something is open. -/
theorem tight_commas {ls : List Code} (h : ∀ l ∈ ls, Whole l) {stack : List Char}
    (hstack : stack ≠ []) (previous : Option Char) :
    tight stack previous (ls.flatMap (',' :: ·)) = true := by
  induction ls generalizing previous with
  | nil => rfl
  | cons l ls ih =>
    have hl := h l List.mem_cons_self
    have hrest := ih (fun m hm => h m (List.mem_cons_of_mem _ hm)) (l.getLast?.or (some ','))
    have hpush : push stack ',' = some stack := push_of_isInert (by decide) _
    rw [List.flatMap_cons, List.cons_append, tight, hpush, Option.any_some,
      tight_append (hl.stackAfter stack), hl.tight_within (by decide), hrest]
    simp [hstack]

/-- The pieces of code that begins with a piece. -/
theorem Whole.commaPiecesFrom {l : Code} (h : Whole l) (rest : Code) :
    Code.commaPiecesFrom [] 0 0 (l ++ rest) = Code.commaPiecesFrom l.reverse 0 0 rest := by
  have hhead : Code.tight [] ([] : Code).head? l = true := h.tight
  have := commaPiecesFrom_tight (by simp [Closers]) h.closed hhead rest
  simpa [openBrackets, openAngles] using this

theorem commaPieces_whole {l : Code} {ls : List Code} (hl : Whole l) (hls : ∀ l ∈ ls, Whole l) :
    commaPieces (l ++ ls.flatMap (',' :: ·)) = l :: ls := by
  induction ls generalizing l with
  | nil =>
    rw [commaPieces, hl.commaPiecesFrom]
    simp [Code.commaPiecesFrom]
  | cons m ms ih =>
    have hnext := ih (hls m List.mem_cons_self) fun n hn => hls n (List.mem_cons_of_mem _ hn)
    rw [commaPieces, hl.commaPiecesFrom, List.flatMap_cons, List.cons_append, Code.commaPiecesFrom]
    simpa [commaPieces] using hnext

end ClassRefactor.Code

namespace ClassRefactor.Segment

theorem advance_nested {code : Code} {rule : AfterBlock.Rule} {stop start pos depth : Nat}
    {c : Char} {stack next : List Char} {s : State} (hpush : Code.push stack c = some next)
    (hs : s.parens = depth + Code.openBrackets stack) :
    advance code rule stop start s pos c =
      some { s with start := some start, parens := depth + Code.openBrackets next } := by
  rcases Code.push_cases hpush with ⟨rfl, rfl⟩ | ⟨rfl, rfl⟩ | ⟨rfl, rfl⟩ | ⟨rfl, rfl⟩ |
    ⟨rfl, rfl⟩ | ⟨rfl, rfl⟩ | ⟨hc, rfl⟩
  · simp [advance, hs, Code.openBrackets]; omega
  · simp [advance, hs, Code.openBrackets]; omega
  · simp [advance, hs, Code.openBrackets]
  · simp [advance, hs, Code.openBrackets]; omega
  · simp [advance, hs, Code.openBrackets]; omega
  · simp [advance, hs, Code.openBrackets]
  · simp only [Code.isInert, Bool.and_eq_true, bne_iff_ne] at hc
    simp [advance, hs, hc]

theorem rangesFrom_nested {code : Code} {rule : AfterBlock.Rule} {stop start pos depth : Nat}
    {stack stack' : List Char} {l : Code} {s : State} (h : Code.stackAfter stack l = some stack')
    (hstart : s.start = some start) (hs : s.parens = depth + Code.openBrackets stack)
    (rest : Code) :
    rangesFrom code rule stop s pos (l ++ rest) =
      rangesFrom code rule stop { s with parens := depth + Code.openBrackets stack' }
        (pos + l.length) rest := by
  induction l generalizing stack s pos with
  | nil =>
    obtain rfl := Option.some.inj h
    rw [← hs]
    rfl
  | cons c l ih =>
    obtain ⟨next, hpush, hnext⟩ := Option.bind_eq_some_iff.mp h
    have hskip : (s.start.isNone && isLayoutBlank c) = false := by rw [hstart]; rfl
    rw [List.cons_append, rangesFrom, hskip]
    simp only [Bool.false_eq_true, ↓reduceIte, advance_nested hpush hs]
    rw [ih hnext (by simp [hstart]) rfl]
    simp [hstart, Nat.add_comm 1, Nat.add_assoc]

end ClassRefactor.Segment
