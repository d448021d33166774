import ClassRefactor.Proofs.Code.Segment

/-!
# Scans are local

A scan between two positions sees the cells between them, and hardly more. So what it finds in a
stretch of code it finds wherever that stretch stands, at a position moved by as much. The one cell
beyond the stretch that is looked at is the one after an `=`, which may make it part of another
operator.
-/

namespace ClassRefactor

/-- The range that lies `n` further on. -/
def Range.shift (n : Nat) (r : Range) : Range := ⟨n + r.start, n + r.stop⟩

@[simp] theorem Range.shift_zero (r : Range) : r.shift 0 = r := by
  simp [Range.shift]

namespace Code

/-- Some cells stand in the code from a position on. -/
def Shows (code : Code) (pos : Nat) (part : Code) : Prop := part <+: code.drop pos

/-- No operator runs across a position: what stands before it is no `=` that goes on after it. -/
def Sealed (code : Code) (p : Nat) : Prop :=
  code[p - 1]? = some '=' → code[p]? ≠ some '=' ∧ code[p]? ≠ some '>'

theorem shows_append (a m b : Code) : (a ++ m ++ b).Shows a.length m := by
  rw [Shows, List.append_assoc, List.drop_left]
  exact List.prefix_append m b

theorem shows_window {code : Code} {start stop : Nat} : code.Shows start (code.window start stop) :=
  List.take_prefix _ _

section

variable {code part : Code} {s i j : Nat} (h : code.Shows s part)
include h

theorem Shows.getElem? (hi : i < part.length) : code[s + i]? = part[i]? := by
  obtain ⟨rest, hrest⟩ := h
  rw [← List.getElem?_drop, ← hrest, List.getElem?_append_left hi]

theorem Shows.length_le (hne : part ≠ []) : s + part.length ≤ code.length := by
  have hle := List.IsPrefix.length_le h
  have hpos := List.length_pos_iff.mpr hne
  rw [List.length_drop] at hle
  omega

theorem Shows.window (hj : j ≤ part.length) :
    code.window (s + i) (s + j) = part.window i j := by
  obtain ⟨rest, hrest⟩ := h
  rcases Nat.le_total j i with hji | hle
  · rw [window_of_le hji, window_of_le (by omega)]
  · have hcount : s + j - (s + i) = j - i := by omega
    rw [Code.window, Code.window, hcount, ← List.drop_drop, ← hrest,
      List.drop_append_of_le_length (Nat.le_trans hle hj),
      List.take_append_of_le_length (by rw [List.length_drop]; omega)]

theorem Shows.skipBlanks (hj : j ≤ part.length) :
    code.skipBlanks (s + i) (s + j) = s + part.skipBlanks i j := by
  simp only [Code.skipBlanks, h.window hj, Nat.add_assoc]

theorem Shows.identEnd (hj : j ≤ part.length) :
    code.identEnd (s + i) (s + j) = s + part.identEnd i j := by
  simp only [Code.identEnd, h.window hj, Nat.add_assoc]

omit h in
theorem trailing_window_le (part : Code) (i j : Nat) (p : Char → Bool) :
    trailing p (part.window i j) ≤ j := by
  have := trailing_le p (part.window i j)
  rw [length_window] at this
  omega

theorem Shows.runBack (p : Char → Bool) (hj : j ≤ part.length) :
    s + j - trailing p (code.window (s + i) (s + j)) = s + (j - trailing p (part.window i j)) := by
  have := trailing_window_le part i j p
  rw [h.window hj]
  omega

theorem Shows.trimBlanks (hj : j ≤ part.length) :
    code.trimBlanks (s + i) (s + j) = s + part.trimBlanks i j :=
  h.runBack _ hj

theorem Shows.isWhiteBetween (hj : j ≤ part.length) :
    code.isWhiteBetween (s + i) (s + j) = part.isWhiteBetween i j := by
  simp only [Code.isWhiteBetween, h.window hj]

theorem Shows.trimmed (hj : j ≤ part.length) :
    code.trimmed (s + i) (s + j) = (part.trimmed i j).shift s := by
  simp only [Code.trimmed, h.window hj, Range.shift, Nat.add_assoc]

theorem Shows.typeAndName? (hj : j ≤ part.length) :
    code.typeAndName? (s + i) (s + j) =
      (part.typeAndName? i j).map fun p => (p.1.shift s, p.2.shift s) := by
  have hstop : part.trimBlanks i j ≤ part.length := Nat.le_trans (Nat.sub_le ..) hj
  have hstart := Nat.le_trans (Nat.sub_le (part.trimBlanks i j)
    (trailing isIdentCell (part.window i (part.trimBlanks i j)))) hstop
  simp only [Code.typeAndName?, h.trimBlanks hj, h.runBack _ hstop, h.runBack _ hstart]
  have hcancel : ∀ a b : Nat, (s + a == s + b) = (a == b) := by
    intro a b
    rw [Bool.eq_iff_iff]
    simp
  rw [hcancel, hcancel]
  split <;> simp [Range.shift]

theorem Shows.matchingClose? (opening closing : Char) (hj : j ≤ part.length) :
    matchingClose? opening closing (code.take (s + j)) (s + i) =
      (matchingClose? opening closing (part.take j) i).map (s + ·) := by
  have hdrop : ∀ (cs : Code) (a b : Nat), (cs.take b).drop a = cs.window a b := by
    intro cs a b
    rw [List.drop_take, Code.window]
  simp only [Code.matchingClose?, hdrop, h.window hj]
  split
  · rfl
  · split
    · simp [Function.comp_def, Nat.add_assoc]
    · rfl

theorem Shows.commaRanges (hj : j ≤ part.length) :
    code.commaRanges (s + i) (s + j) = (part.commaRanges i j).map (Range.shift s) := by
  have hspread : ∀ (pieces : List Code) (n : Nat),
      spread (s + n) pieces = (spread n pieces).map (Range.shift s) := by
    intro pieces
    induction pieces with
    | nil => intro n; rfl
    | cons piece rest ih => intro n; simp [spread, Range.shift, ← ih, Nat.add_assoc]
  rw [Code.commaRanges, Code.commaRanges, h.window hj, hspread]

end

/-- The cell beyond a search for an assignment matters only after an `=`. -/
theorem assignFrom_beyond {beyond : Option Char} {previous : Char} {depth : Nat} {cells : Code}
    (h : beyond = some '=' → cells.getLast? ≠ some '=') :
    assignFrom beyond previous depth cells = assignFrom none previous depth cells := by
  induction cells generalizing previous depth with
  | nil => rfl
  | cons c rest ih =>
    have hrest : beyond = some '=' → rest.getLast? ≠ some '=' := by
      intro hb hlast
      have := h hb
      rw [List.getLast?_cons, hlast] at this
      simp at this
    simp only [assignFrom, ih hrest]
    cases rest with
    | cons d rest => rfl
    | nil =>
      by_cases hc : c = '='
      · have hb : beyond ≠ some '=' := fun hb => h hb (by simp [hc])
        have hnext : isComparison previous (beyond.getD ' ') = isComparison previous ' ' := by
          cases beyond with
          | none => rfl
          | some d =>
            have hd : (d == '=') = false := by simpa using hb
            simp [isComparison, hd]
        simp [hnext]
      · simp [hc]

theorem Shows.assignment?_of_lt {code part : Code} {s i j : Nat} (h : code.Shows s part)
    (hj : j < part.length) :
    code.assignment? (s + i) (s + j) = (part.assignment? i j).map (s + ·) := by
  rw [Code.assignment?, Code.assignment?, h.window (Nat.le_of_lt hj), h.getElem? hj]
  simp [Function.comp_def, Nat.add_assoc]

section

variable {code part : Code} {s i j : Nat} (h : code.Shows s part)
  (hsealed : code.Sealed (s + part.length))
include h hsealed

theorem Shows.assignment? (hj : j ≤ part.length) :
    code.assignment? (s + i) (s + j) = (part.assignment? i j).map (s + ·) := by
  rcases Nat.lt_or_eq_of_le hj with hlt | rfl
  · exact h.assignment?_of_lt hlt
  · have hbeyond : assignFrom code[s + part.length]? ' ' 0 (part.window i part.length) =
        assignFrom none ' ' 0 (part.window i part.length) := by
      apply assignFrom_beyond
      intro hbeyond hlast
      -- The last cell of the window is the last of the part, so an operator would run on.
      rw [List.getLast?_eq_getElem?, length_window, getElem?_window] at hlast
      split at hlast
      · rename_i hin
        have hat : i + (min (part.length - i) (part.length - i) - 1) = part.length - 1 := by omega
        rw [hat] at hlast
        have hprev : code[s + part.length - 1]? = some '=' := by
          rw [← hlast, ← h.getElem? (by omega)]
          congr 1
          omega
        exact (hsealed hprev).1 hbeyond
      · cases hlast
    have hnone : part[part.length]? = none := by simp
    rw [Code.assignment?, Code.assignment?, h.window hj, hbeyond, hnone]
    simp [Function.comp_def, Nat.add_assoc]

/-- An arrow does not begin with the last cell of a part. -/
theorem Shows.next_eq_arrow (hi : i < part.length) (heq : part[i]? = some '=') :
    (code[s + i + 1]? == some '>') = (part[i + 1]? == some '>') := by
  rcases Nat.lt_or_eq_of_le (Nat.succ_le_of_lt hi) with hlt | hend
  · rw [Nat.add_assoc, h.getElem? hlt]
  · have hnone : part[i + 1]? = none := by rw [Nat.add_one, hend]; simp
    have hprev : code[s + part.length - 1]? = some '=' := by
      rw [← heq, ← h.getElem? hi]
      congr 1
      omega
    have hnext : code[s + i + 1]? ≠ some '>' := by
      have hat : s + i + 1 = s + part.length := by omega
      rw [hat]
      exact (hsealed hprev).2
    rw [hnone]
    simpa using hnext

end

theorem attributesFrom_shift (s depth opened pos : Nat) (cells : Code) :
    attributesFrom depth (s + opened) (s + pos) cells =
      s + attributesFrom depth opened pos cells := by
  induction cells generalizing depth opened pos with
  | nil => cases depth <;> rfl
  | cons c rest ih =>
    cases depth with
    | zero =>
      simp only [attributesFrom, Nat.add_assoc, ih]
      split
      · rfl
      · split <;> rfl
    | succ depth =>
      simp only [attributesFrom, Nat.add_assoc, ih]
      split
      · rfl
      · split <;> rfl

theorem modifiersFrom_shift (known : List String) (s : Nat) (word : Code) (wordStart pos : Nat)
    (cells : Code) :
    modifiersFrom known word (s + wordStart) (s + pos) cells =
      ((modifiersFrom known word wordStart pos cells).1,
        s + (modifiersFrom known word wordStart pos cells).2) := by
  induction cells generalizing word wordStart pos with
  | nil =>
    simp only [modifiersFrom]
    split
    · rfl
    · split <;> rfl
  | cons c rest ih =>
    have hstart : (if word.isEmpty = true then s + pos else s + wordStart) =
        s + (if word.isEmpty = true then pos else wordStart) := by split <;> rfl
    simp only [modifiersFrom, hstart, Nat.add_assoc, ih]
    split
    · rfl
    · split
      · split <;> rfl
      · split
        · rfl
        · split <;> rfl

section

variable {code part : Code} {s i j : Nat} (h : code.Shows s part) (hj : j ≤ part.length)
include h hj

theorem Shows.skipAttributes :
    code.skipAttributes (s + i) (s + j) = s + part.skipAttributes i j := by
  rw [Code.skipAttributes, Code.skipAttributes, h.window hj, attributesFrom_shift]

theorem Shows.modifiers (known : List String) :
    code.modifiers known (s + i) (s + j) =
      ((part.modifiers known i j).1, s + (part.modifiers known i j).2) := by
  rw [Code.modifiers, Code.modifiers, h.window hj, modifiersFrom_shift]

end

/-! Segments. -/

/-- Whether a statement that ends with a brace begins with `do` is seen within it. -/
theorem Shows.beginsDo {code part : Code} {s start after : Nat} (h : code.Shows s part)
    (hstart : start < after) (hafter : after ≤ part.length) (hclose : part[after - 1]? = some '}') :
    ("do".toList.isPrefixOf (code.drop (s + start)) && code.isBreak (s + start + 2)) =
      ("do".toList.isPrefixOf (part.drop start) && part.isBreak (start + 2)) := by
  have hword : ∀ cs : Code, ∀ p : Nat, "do".toList.isPrefixOf (cs.drop p) =
      (cs[p]? == some 'd' && cs[p + 1]? == some 'o') := by
    intro cs p
    rw [← List.getElem?_drop, ← Nat.add_zero p, ← List.getElem?_drop, Nat.add_zero]
    cases cs.drop p with
    | nil => rfl
    | cons a rest => cases rest <;> simp [List.isPrefixOf, Bool.beq_comm]
  rw [hword, hword, h.getElem? (show start < part.length by omega)]
  by_cases hd : part[start]? = some 'd'
  · have hone : start + 1 < part.length := by
      rcases Nat.lt_or_ge (start + 1) after with hlt | hge
      · omega
      · have : after - 1 = start := by omega
        rw [this, hd] at hclose
        cases hclose
    rw [Nat.add_assoc, h.getElem? hone]
    by_cases ho : part[start + 1]? = some 'o'
    · have htwo : start + 2 < part.length := by
        rcases Nat.lt_or_ge (start + 2) after with hlt | hge
        · omega
        · have : after - 1 = start ∨ after - 1 = start + 1 := by omega
          rcases this with this | this <;> rw [this] at hclose
          · rw [hd] at hclose
            cases hclose
          · rw [ho] at hclose
            cases hclose
      rw [Nat.add_assoc, isBreak, isBreak, h.getElem? htwo]
    · rw [beq_eq_false_iff_ne.mpr ho]
      simp
  · rw [beq_eq_false_iff_ne.mpr hd]
    simp

theorem Shows.afterStatementBlock {code part : Code} {s start after stop : Nat}
    (h : code.Shows s part) (hstop : stop ≤ part.length) (hstart : start < after)
    (hafter : after ≤ stop) (hclose : part[after - 1]? = some '}') :
    code.afterStatementBlock (s + start) (s + after) (s + stop) =
      part.afterStatementBlock start after stop := by
  have hnextle : part.skipBlanks after stop ≤ stop := (run_spec _ hafter hstop).1
  have hidentle : part.identEnd (part.skipBlanks after stop) stop ≤ part.length :=
    Nat.le_trans (run_spec _ hnextle hstop).1 hstop
  simp only [Code.afterStatementBlock, h.skipBlanks hstop, h.identEnd hstop, h.window hidentle,
    Bool.and_assoc, h.beginsDo hstart (Nat.le_trans hafter hstop) hclose]

end Code

namespace Segment

/-- Segments lie between the ends of the cut, wherever these are. -/
theorem within_rangesFrom {code cells : Code} {rule : AfterBlock.Rule} {lo stop pos : Nat}
    {st : State} (hlo : lo ≤ pos) (hcells : pos + cells.length = stop)
    (hstart : ∀ start, st.start = some start → lo ≤ start ∧ start < pos) :
    ∀ r ∈ rangesFrom code rule stop st pos cells, lo ≤ r.start ∧ r.start < r.stop ∧
      r.stop ≤ stop := by
  induction cells generalizing st pos with
  | nil =>
    intro r hr
    cases hs : st.start with
    | none => simp [rangesFrom, hs] at hr
    | some start =>
      obtain ⟨h1, h2⟩ := hstart start hs
      obtain rfl : r = ⟨start, stop⟩ := by simpa [rangesFrom, hs] using hr
      simp only [List.length_nil] at hcells
      exact ⟨h1, by simp only; omega, Nat.le_refl _⟩
  | cons c rest ih =>
    have hlen : pos + 1 + rest.length = stop := by simp only [List.length_cons] at hcells; omega
    have hgetD : lo ≤ st.start.getD pos ∧ st.start.getD pos < pos + 1 := by
      cases hs : st.start with
      | none => simp [hlo]
      | some start =>
        obtain ⟨h1, h2⟩ := hstart start hs
        exact ⟨h1, by simp only [Option.getD_some]; omega⟩
    intro r hr
    unfold rangesFrom at hr
    split at hr
    · rename_i hskip
      simp only [Bool.and_eq_true, Option.isNone_iff_eq_none] at hskip
      exact ih (by omega) hlen (by simp [hskip.1]) r hr
    · simp only at hr
      split at hr
      · rcases List.mem_cons.mp hr with rfl | hr
        · exact ⟨hgetD.1, hgetD.2, by simp only; omega⟩
        · exact ih (by omega) hlen (by simp) r hr
      · rename_i next hnext
        refine ih (by omega) hlen (fun start hst => ?_) r hr
        rw [start_of_advance_eq_some hnext] at hst
        obtain rfl := Option.some.inj hst
        exact hgetD

theorem within_ranges {code : Code} (rule : AfterBlock.Rule) {start stop : Nat}
    (hle : start ≤ stop) (hstop : stop ≤ code.length) :
    ∀ r ∈ ranges code rule start stop, start ≤ r.start ∧ r.start < r.stop ∧ r.stop ≤ stop :=
  within_rangesFrom (Nat.le_refl _) (by rw [Code.length_window_of_le hstop]; omega) (by simp)

/-- The same state with the segment `n` further on. -/
def State.shift (n : Nat) (st : State) : State := { st with start := st.start.map (n + ·) }

section

variable {code part : Code} {rule rule' : AfterBlock.Rule} {s stop : Nat} (h : code.Shows s part)
  (hstop : stop ≤ part.length)
  (hrule : ∀ start after, start < after → after ≤ stop → part[after - 1]? = some '}' →
    rule (s + start) (s + after) (s + stop) = rule' start after stop)
include h hstop hrule

theorem advance_shift {start pos : Nat} {st : State} {c : Char} (hle : start ≤ pos)
    (hpos : pos < stop) (hc : part[pos]? = some c) :
    advance code rule (s + stop) (s + start) (st.shift s) (s + pos) c =
      (advance part rule' stop start st pos c).map (State.shift s) := by
  have hassign : (code.assignment? (s + start) (s + pos)).isSome =
      (part.assignment? start pos).isSome := by
    rw [h.assignment?_of_lt (by omega), Option.isSome_map]
  simp only [advance, hassign, State.shift]
  split
  · rfl
  · split
    · rfl
    · split
      · rfl
      · split
        · rename_i hbrace
          have hbrace : part[pos + 1 - 1]? = some '}' := by
            rw [Nat.add_sub_cancel, hc]
            simpa using hbrace
          rw [Nat.add_assoc, hrule start (pos + 1) (by omega) (by omega) hbrace]
          by_cases hends : (st.braces - 1 == 0 && st.parens == 0 && !st.inExpression) = true
          · simp only [hends, ↓reduceIte]
            cases rule' start (pos + 1) stop <;> rfl
          · simp only [hends, Bool.false_eq_true, ↓reduceIte]
            rfl
        · by_cases hends : (c == ';' && st.braces == 0 && st.parens == 0) = true
          · simp only [hends, ↓reduceIte]
            rfl
          · simp only [hends, Bool.false_eq_true, ↓reduceIte]
            rfl

theorem rangesFrom_shift {st : State} {pos : Nat} {cells : Code}
    (hstart : ∀ start, st.start = some start → start ≤ pos) (hpos : pos ≤ stop)
    (hcells : part.window pos stop = cells) :
    rangesFrom code rule (s + stop) (st.shift s) (s + pos) cells =
      (rangesFrom part rule' stop st pos cells).map (Range.shift s) := by
  induction cells generalizing st pos with
  | nil => cases hs : st.start <;> simp [rangesFrom, State.shift, hs, Range.shift]
  | cons c rest ih =>
    obtain ⟨hlt, hc, hrest⟩ := Code.window_eq_cons hcells
    have hnone : (st.shift s).start.isNone = st.start.isNone := by simp [State.shift]
    have hgetD : (st.shift s).start.getD (s + pos) = s + st.start.getD pos := by
      cases hs : st.start <;> simp [State.shift, hs]
    have hle : st.start.getD pos ≤ pos := by
      cases hs : st.start with
      | none => simp
      | some start => simpa using hstart start hs
    unfold rangesFrom
    simp only [hnone, hgetD, advance_shift h hstop hrule hle hlt hc, Nat.add_assoc]
    split
    · rename_i hskip
      simp only [Bool.and_eq_true, Option.isNone_iff_eq_none] at hskip
      exact ih (by simp [hskip.1]) hlt hrest.symm
    · cases hnext : advance part rule' stop (st.start.getD pos) st pos c with
      | none =>
        have hempty : ∀ start, ({} : State).start = some start → start ≤ pos + 1 := by simp
        simp only [Option.map_none, List.map_cons, ← ih hempty hlt hrest.symm]
        rfl
      | some next =>
        have hkeep := start_of_advance_eq_some hnext
        simp only [Option.map_some]
        refine ih (fun start hst => ?_) hlt hrest.symm
        rw [hkeep] at hst
        obtain rfl := Option.some.inj hst
        omega

theorem ranges_shift {start : Nat} (hle : start ≤ stop) :
    ranges code rule (s + start) (s + stop) =
      (ranges part rule' start stop).map (Range.shift s) := by
  rw [ranges, ranges, h.window hstop]
  have hempty : ∀ begun, ({} : State).start = some begun → begun ≤ start := by simp
  exact rangesFrom_shift h hstop hrule hempty hle rfl

end

end Segment

namespace Code

variable {code part : Code} {s start stop : Nat}

theorem Shows.statementRanges (h : code.Shows s part) (hle : start ≤ stop)
    (hstop : stop ≤ part.length) :
    code.statementRanges (s + start) (s + stop) =
      (part.statementRanges start stop).map (Range.shift s) := by
  have hranges := Segment.ranges_shift h hstop
    (fun _ _ hlt hafter hclose => h.afterStatementBlock hstop hlt hafter hclose) hle
  have hwithin := Segment.within_ranges part.afterStatementBlock hle hstop
  rw [Code.statementRanges, Code.statementRanges, hranges, List.map_map, List.map_map]
  apply List.map_congr_left
  intro r hr
  obtain ⟨-, -, hr⟩ := hwithin r hr
  simp only [Function.comp_apply, Range.shift, h.trimBlanks (Nat.le_trans hr hstop)]

end Code

end ClassRefactor
