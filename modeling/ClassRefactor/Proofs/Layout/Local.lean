import ClassRefactor.Proofs.Code.Local
import ClassRefactor.Proofs.Layout.Member

/-!
# Member layouts are local

The layout of a member is the layout of its own text, moved to where the member stands.
-/

namespace ClassRefactor

def VariableLayout.shift (n : Nat) (v : VariableLayout) : VariableLayout :=
  { name := v.name.shift n, initializer := v.initializer.map (Range.shift n) }

def FieldLayout.shift (n : Nat) (f : FieldLayout) : FieldLayout :=
  { f with type := f.type.shift n, declarators := f.declarators.map (VariableLayout.shift n) }

def ParameterLayout.shift (n : Nat) (p : ParameterLayout) : ParameterLayout :=
  { p with
    range := p.range.shift n
    type := p.type.shift n
    name := p.name.shift n
    default := p.default.map (Range.shift n) }

def BlockLayout.shift (n : Nat) (b : BlockLayout) : BlockLayout :=
  { opening := n + b.opening, closing := n + b.closing
    statements := b.statements.map (Range.shift n) }

def BodyLayout.shift (n : Nat) : BodyLayout → BodyLayout
  | .block b => .block (b.shift n)
  | .expression r => .expression (r.shift n)
  | .absent => .absent

def CallableLayout.shift (n : Nat) (c : CallableLayout) : CallableLayout :=
  { c with
    lead := c.lead.shift n
    result := c.result.shift n
    name := c.name.shift n
    typeParams := c.typeParams.map (Range.shift n)
    opening := n + c.opening
    closing := n + c.closing
    params := c.params.map (ParameterLayout.shift n)
    tail := c.tail.shift n
    body := c.body.shift n }

def MemberShape.shift (n : Nat) : MemberShape → MemberShape
  | .field f => .field (f.shift n)
  | .constructor c => .constructor (c.shift n)
  | .method c => .method (c.shift n)
  | .other => .other

def MemberLayout.shift (n : Nat) (m : MemberLayout) : MemberLayout :=
  { range := m.range.shift n, signature := m.signature.shift n, shape := m.shape.shift n }

@[simp] theorem ParameterLayout.shift_zero : ParameterLayout.shift 0 = id := by
  funext p
  obtain ⟨_, _, _, _, _ | _⟩ := p <;> simp [ParameterLayout.shift]

theorem MemberShape.callable?_shift (n : Nat) (shape : MemberShape) :
    (shape.shift n).callable? = shape.callable?.map (CallableLayout.shift n) := by
  cases shape <;> rfl

/-- Collecting commutes with a change of the elements that the function respects. -/
theorem mapM_map_eq_map {α β γ δ : Type} {f : γ → Option δ} {k : α → Option β} {g : α → γ}
    {m : β → δ} {as : List α} (h : ∀ a ∈ as, f (g a) = (k a).map m) :
    (as.map g).mapM f = (as.mapM k).map (List.map m) := by
  induction as with
  | nil => rfl
  | cons a as ih =>
    rw [List.map_cons, List.mapM_cons, List.mapM_cons, h a List.mem_cons_self,
      ih fun b hb => h b (List.mem_cons_of_mem _ hb)]
    cases k a with
    | none => rfl
    | some b => cases as.mapM k <;> rfl

namespace Code

variable {code part : Code} {s : Nat}

theorem modifiersFrom_le (known : List String) (word : Code) {wordStart pos : Nat} (cells : Code)
    (hword : wordStart ≤ pos) :
    (modifiersFrom known word wordStart pos cells).2 ≤ pos + cells.length := by
  induction cells generalizing word wordStart pos with
  | nil =>
    unfold modifiersFrom
    split
    · exact Nat.le_refl _
    · split
      · exact hword
      · exact Nat.le_refl _
  | cons c rest ih =>
    have hstart : (if word.isEmpty then pos else wordStart) ≤ pos + 1 := by split <;> omega
    have hident := ih (c :: word) hstart
    have hblank := ih [] (show pos ≤ pos + 1 by omega)
    rw [List.length_cons]
    unfold modifiersFrom
    split
    · omega
    · split
      · split
        · omega
        · exact Nat.le_add_right ..
      · split
        · exact Nat.le_trans hword (Nat.le_add_right ..)
        · split
          · simp only; omega
          · exact Nat.le_add_right ..

theorem modifiers_le (known : List String) {start stop : Nat} (hle : start ≤ stop)
    (hstop : stop ≤ part.length) : (part.modifiers known start stop).2 ≤ stop := by
  have := modifiersFrom_le known [] (part.window start stop) (Nat.le_refl start)
  rw [length_window_of_le hstop] at this
  rw [Code.modifiers]
  omega

section

variable (h : code.Shows s part) (hsealed : code.Sealed (s + part.length))
include h

theorem Shows.withoutSemicolon {j : Nat} (hpos : 0 < j) (hj : j ≤ part.length) :
    code.withoutSemicolon (s + j) = s + part.withoutSemicolon j := by
  have hat : s + j - 1 = s + (j - 1) := by omega
  rw [Code.withoutSemicolon, Code.withoutSemicolon, hat, h.getElem? (by omega)]
  split <;> rfl

include hsealed

theorem Shows.assignment?_getD {i j : Nat} (hj : j ≤ part.length) :
    (code.assignment? (s + i) (s + j)).getD (s + j) = s + (part.assignment? i j).getD j := by
  rw [h.assignment? hsealed hj]
  cases part.assignment? i j <;> rfl

omit h hsealed in
theorem assignment?_getD_le (part : Code) (i j : Nat) : (part.assignment? i j).getD j ≤ j := by
  cases hassign : part.assignment? i j with
  | none => exact Nat.le_refl _
  | some p => exact Nat.le_of_lt (assignment?_spec hassign).2.1

/-- What follows an assignment is moved with it. -/
theorem Shows.assigned {i j : Nat} (hj : j ≤ part.length) :
    ((code.assignment? (s + i) (s + j)).map fun p => (⟨p + 1, s + j⟩ : Range)) =
      ((part.assignment? i j).map fun p => (⟨p + 1, j⟩ : Range)).map (Range.shift s) := by
  rw [h.assignment? hsealed hj]
  simp [Function.comp_def, Range.shift, Nat.add_assoc]

theorem Shows.furtherVariable? {piece : Range} (hle : piece.start ≤ piece.stop)
    (hstop : piece.stop ≤ part.length) :
    code.furtherVariable? (piece.shift s) =
      (part.furtherVariable? piece).map (VariableLayout.shift s) := by
  have hassign := assignment?_getD_le part piece.start piece.stop
  have hgetD := Nat.le_trans hassign hstop
  simp only [Code.furtherVariable?, Range.shift, h.assigned hsealed hstop,
    h.assignment?_getD hsealed hstop, h.trimmed hgetD]
  have hname : (part.trimmed piece.start ((part.assignment? piece.start piece.stop).getD
      piece.stop)).stop ≤ part.length := by
    have hfront := leading_le isWhite (part.window piece.start
      ((part.assignment? piece.start piece.stop).getD piece.stop))
    simp only [Code.trimmed]
    rw [length_window] at hfront ⊢
    omega
  generalize part.trimmed piece.start _ = name at hname ⊢
  have hempty : (⟨s + name.start, s + name.stop⟩ : Range).isEmpty = name.isEmpty := by
    rw [Bool.eq_iff_iff]
    simp [Range.isEmpty]
  rw [hempty, h.window hname]
  split <;> rfl

theorem Shows.field? {start stop : Nat} (hlt : start < stop) (hstop : stop ≤ part.length) :
    code.field? (s + start) (s + stop) = (part.field? start stop).map (FieldLayout.shift s) := by
  have hdecl : start ≤ part.withoutSemicolon stop ∧ part.withoutSemicolon stop ≤ part.length := by
    unfold Code.withoutSemicolon
    split <;> omega
  simp only [Code.field?, h.withoutSemicolon (Nat.zero_lt_of_lt hlt) hstop, h.modifiers hdecl.2,
    h.commaRanges hdecl.2]
  have hle : (part.modifiers memberModifiers start (part.withoutSemicolon stop)).2 ≤
      part.withoutSemicolon stop := modifiers_le _ hdecl.1 hdecl.2
  generalize part.modifiers memberModifiers start (part.withoutSemicolon stop) = mods at hle ⊢
  have htiles := tiles_commaRanges hle hdecl.2
  generalize part.commaRanges mods.2 (part.withoutSemicolon stop) = pieces at htiles ⊢
  have hpieces : ∀ piece ∈ pieces, piece.start ≤ piece.stop ∧ piece.stop ≤ part.length :=
    fun piece hp => ⟨(htiles.mem hp).2.1, Nat.le_trans (htiles.mem hp).2.2 hdecl.2⟩
  cases pieces with
  | nil => rfl
  | cons first others =>
    have hfirst := (hpieces first List.mem_cons_self).2
    have hgetD := Nat.le_trans (assignment?_getD_le part first.start _) hfirst
    have hothers := mapM_map_eq_map (f := code.furtherVariable?) (k := part.furtherVariable?)
      (g := Range.shift s) (m := VariableLayout.shift s) fun piece hp =>
        let hp := hpieces piece (List.mem_cons_of_mem _ hp)
        h.furtherVariable? hsealed hp.1 hp.2
    simp only [List.map_cons, hothers, Range.shift, h.assignment?_getD hsealed hfirst,
      h.assigned hsealed hfirst, h.typeAndName? hgetD]
    cases part.typeAndName? first.start _ with
    | none => rfl
    | some p => cases others.mapM part.furtherVariable? <;> rfl

theorem Shows.parameter? {r : Range} (hstop : r.stop ≤ part.length) :
    code.parameter? (r.shift s) = (part.parameter? r).map (ParameterLayout.shift s) := by
  have hgetD := fun i => Nat.le_trans (assignment?_getD_le part i _) hstop
  simp only [Code.parameter?, Range.shift, h.skipAttributes hstop, h.modifiers hstop,
    h.assignment?_getD hsealed hstop, h.assigned hsealed hstop, h.typeAndName? (hgetD _)]
  cases part.typeAndName? _ _ <;> rfl

theorem Shows.parameters? {opening closing : Nat} (hle : opening < closing)
    (hstop : closing ≤ part.length) :
    code.parameters? (s + opening) (s + closing) =
      (part.parameters? opening closing).map (List.map (ParameterLayout.shift s)) := by
  have hnext : s + opening + 1 = s + (opening + 1) := Nat.add_assoc ..
  simp only [Code.parameters?, hnext, h.isWhiteBetween hstop, h.commaRanges hstop]
  split
  · rfl
  · have htiles := tiles_commaRanges hle hstop
    refine mapM_map_eq_map fun piece hp => ?_
    have hpstop := Nat.le_trans (htiles.mem hp).2.2 hstop
    simp only [Range.shift, h.skipBlanks hpstop, h.trimBlanks hpstop]
    exact h.parameter? hsealed (r := ⟨part.skipBlanks piece.start piece.stop, _⟩)
      (Nat.le_trans (Nat.sub_le ..) hpstop)

omit hsealed in
theorem Shows.callableName? {start opening : Nat} (hopen : opening ≤ part.length) :
    code.callableName? (s + start) (s + opening) =
      (part.callableName? start opening).map fun p =>
        (p.1.shift s, p.2.map (Range.shift s)) := by
  have hstop : part.trimBlanks start opening ≤ part.length := Nat.le_trans (Nat.sub_le ..) hopen
  simp only [Code.callableName?, h.trimBlanks hopen]
  generalize part.trimBlanks start opening = stop at hstop ⊢
  -- The name that ends at a position is looked for in the same way with and without type
  -- parameters.
  have hname : ∀ (nameStop : Nat) (typeParams : Option Range), nameStop ≤ part.length →
      (let width := trailing (fun c => isIdentCell c || c == '.')
          (code.window (s + start) (s + nameStop))
        if (width == 0) = true then none
        else some ((⟨s + nameStop - width, s + nameStop⟩ : Range),
          typeParams.map (Range.shift s))) =
      (let width := trailing (fun c => isIdentCell c || c == '.') (part.window start nameStop)
        if (width == 0) = true then none
        else some ((⟨nameStop - width, nameStop⟩ : Range), typeParams)).map
          fun p => (p.1.shift s, p.2.map (Range.shift s)) := by
    intro nameStop typeParams hle
    have hwidth := trailing_window_le part start nameStop
      fun c => isIdentCell c || c == '.'
    simp only [h.window hle]
    split
    · rfl
    · simp only [Option.map_some, Range.shift, Option.some.injEq, Prod.mk.injEq, Range.mk.injEq,
        and_true]
      omega
  by_cases hclose : start < stop ∧ part[stop - 1]? = some '>'
  · have hat : s + stop - 1 = s + (stop - 1) := by omega
    have hcode : (decide (s + start < s + stop) && code[s + stop - 1]? == some '>') = true := by
      rw [hat, h.getElem? (by omega), hclose.2]
      simpa using hclose.1
    have hpart : (decide (start < stop) && part[stop - 1]? == some '>') = true := by
      rw [hclose.2]
      simpa using hclose.1
    simp only [hcode, hpart, ↓reduceIte, h.window hstop]
    cases hwidth : Code.matchingClose? '>' '<' (part.window start stop).reverse 0 with
    | none => rfl
    | some width =>
      have hlen : (part.window start stop).length = stop - start := length_window_of_le hstop
      have hw := (List.getElem?_eq_some_iff.mp (matchingClose?_spec hwidth).2.2).1
      rw [List.length_reverse, hlen] at hw
      have hless : s + stop - 1 - width = s + (stop - 1 - width) := by omega
      have hlessle : stop - 1 - width ≤ part.length := by omega
      simp only [hless, h.trimBlanks hlessle, Option.bind_eq_bind, Option.bind_some]
      exact hname _ (some ⟨stop - 1 - width, stop⟩) (Nat.le_trans (Nat.sub_le ..) hlessle)
  · have hpart : (decide (start < stop) && part[stop - 1]? == some '>') = false := by
      rw [Bool.eq_false_iff]
      simpa using hclose
    have hcode : (decide (s + start < s + stop) && code[s + stop - 1]? == some '>') = false := by
      by_cases hlt : start < stop
      · have hat : s + stop - 1 = s + (stop - 1) := by omega
        rw [hat, h.getElem? (by omega), ← hpart]
        simp
      · simp [hlt]
    simp only [hcode, hpart, Bool.false_eq_true, ↓reduceIte, Option.bind_eq_bind, Option.bind_some]
    exact hname stop none hstop

theorem Shows.bodyStartFrom {stop skip pos : Nat} {cells : Code} (hstop : stop ≤ part.length)
    (hcells : part.window pos stop = cells) :
    code.bodyStartFrom (s + stop) skip (s + pos) cells =
      (part.bodyStartFrom stop skip pos cells).map (s + ·) := by
  induction cells generalizing skip pos with
  | nil => rfl
  | cons c rest ih =>
    obtain ⟨hlt, hc, hrest⟩ := window_eq_cons hcells
    have hnext : ∀ skip, code.bodyStartFrom (s + stop) skip (s + pos + 1) rest =
        (part.bodyStartFrom stop skip (pos + 1) rest).map (s + ·) :=
      fun _ => ih hrest.symm
    cases skip with
    | succ skip => exact hnext skip
    | zero =>
      have harrow : (c == '=' && code[s + pos + 1]? == some '>') =
          (c == '=' && part[pos + 1]? == some '>') := by
        by_cases heq : c = '='
        · rw [h.next_eq_arrow hsealed (by omega) (by rw [hc, heq])]
        · rw [beq_eq_false_iff_ne.mpr heq, Bool.false_and, Bool.false_and]
      simp only [Code.bodyStartFrom, harrow, h.matchingClose? _ _ hstop, hnext]
      split
      · rfl
      · split
        · cases Code.matchingClose? '(' ')' (part.take stop) pos with
          | none => rfl
          | some close =>
            simp only [Option.map_some, Nat.add_sub_add_left]
        · rfl

omit hsealed in
theorem Shows.blockLayout {opening closing : Nat} (hlt : opening < closing)
    (hstop : closing ≤ part.length) :
    code.blockLayout (s + opening) (s + closing) =
      (part.blockLayout opening closing).shift s := by
  simp only [Code.blockLayout, BlockLayout.shift, Nat.add_assoc, h.statementRanges hlt hstop]

omit hsealed in
theorem Shows.body? {pos stop : Nat} (hstop : stop ≤ part.length) :
    code.body? (s + pos) (s + stop) = (part.body? pos stop).map (BodyLayout.shift s) := by
  simp only [Code.body?, Nat.add_le_add_iff_left]
  split
  · rfl
  · rename_i hlt
    simp only [h.getElem? (show pos < part.length by omega), h.matchingClose? _ _ hstop,
      h.withoutSemicolon (show 0 < stop by omega) hstop]
    split
    · cases hclose : Code.matchingClose? '{' '}' (part.take stop) pos with
      | none => rfl
      | some close =>
        obtain ⟨-, hlt, hclt, -⟩ := matchingClose?_take_spec hclose
        simp only [Option.map_some, h.blockLayout hlt (by omega)]
        rfl
    · split <;> rfl

end

/-! The kind of a member. -/

theorem Shows.opensTuple (h : code.Shows s part) {start opening : Nat} (hle : start ≤ opening)
    (hopen : opening ≤ part.length) :
    code.opensTuple (s + start) (s + opening) = part.opensTuple start opening := by
  obtain ⟨hstart, -, -⟩ := runBack_spec isLayoutBlank hle hopen
  have hstop : part.trimBlanks start opening ≤ part.length := Nat.le_trans (Nat.sub_le ..) hopen
  rw [Code.opensTuple, Code.opensTuple, h.trimBlanks hopen]
  change start ≤ part.trimBlanks start opening at hstart
  generalize part.trimBlanks start opening = stop at hstart hstop ⊢
  by_cases heq : stop = start
  · simp [heq]
  · have hat : s + stop - 1 = s + (stop - 1) := by omega
    have hwidth : s + stop - trailing isIdentCell (part.window start stop) =
        s + (stop - trailing isIdentCell (part.window start stop)) := by
      have := trailing_window_le part start stop isIdentCell
      omega
    simp [heq, hat, h.getElem? (show stop - 1 < part.length by omega), h.window hstop, hwidth]

def Decider.shift (n : Nat) : Decider → Decider
  | .at pos => .at (n + pos)
  | .missing => .missing

theorem Shows.deciderFrom {code part : Code} {s : Nat} (h : code.Shows s part)
    {start stop angles skip pos : Nat} {cells : Code} (hstart : start ≤ pos)
    (hstop : stop ≤ part.length) (hcells : part.window pos stop = cells) :
    code.deciderFrom (s + start) (s + stop) angles skip (s + pos) cells =
      (part.deciderFrom start stop angles skip pos cells).shift s := by
  induction cells generalizing angles skip pos with
  | nil => rfl
  | cons c rest ih =>
    obtain ⟨hlt, hc, hrest⟩ := window_eq_cons hcells
    have hnext : ∀ angles skip,
        code.deciderFrom (s + start) (s + stop) angles skip (s + pos + 1) rest =
          (part.deciderFrom start stop angles skip (pos + 1) rest).shift s :=
      fun _ _ => ih (by omega) hrest.symm
    cases skip with
    | succ skip => exact hnext angles skip
    | zero =>
      simp only [Code.deciderFrom, hnext, h.opensTuple hstart (by omega),
        h.matchingClose? _ _ hstop]
      split
      · rfl
      · split
        · rfl
        · split
          · cases Code.matchingClose? '(' ')' (part.take stop) pos with
            | none => rfl
            | some close =>
              simp only [Option.map_some, Nat.add_sub_add_left]
          · split <;> rfl

theorem callableName?_stop_le {start opening : Nat} {name : Range} {typeParams : Option Range}
    (h : part.callableName? start opening = some (name, typeParams)) :
    name.start ≤ name.stop ∧ name.stop ≤ opening := by
  have hstop : part.trimBlanks start opening ≤ opening := Nat.sub_le ..
  have hname : ∀ {nameStop width : Nat} {params : Option Range}, nameStop ≤ opening →
      (if (width == 0) = true then none
        else some ((⟨nameStop - width, nameStop⟩ : Range), params)) =
        some (name, typeParams) →
      name.start ≤ name.stop ∧ name.stop ≤ opening := by
    intro nameStop width params hle h
    split at h
    · cases h
    · simp only [Option.some.injEq, Prod.mk.injEq] at h
      rw [← h.1]
      exact ⟨Nat.sub_le .., hle⟩
  simp only [callableName?, Option.bind_eq_bind] at h
  generalize part.trimBlanks start opening = stop at h hstop
  split at h
  · obtain ⟨width, -, h⟩ := Option.bind_eq_some_iff.mp h
    have hless : part.trimBlanks start (stop - 1 - width) ≤ stop - 1 - width := Nat.sub_le ..
    exact hname (by omega) h
  · exact hname hstop h

section

variable (h : code.Shows s part) (hsealed : code.Sealed (s + part.length))
include h hsealed

theorem Shows.callable? {className : Code} {start opening stop : Nat} (hopen : opening < stop)
    (hstop : stop ≤ part.length) :
    code.callable? className (s + start) (s + opening) (s + stop) =
      (part.callable? className start opening stop).map (MemberShape.shift s) := by
  simp only [Code.callable?, h.callableName? (Nat.le_trans (Nat.le_of_lt hopen) hstop),
    h.matchingClose? _ _ hstop]
  cases hname : part.callableName? start opening with
  | none => rfl
  | some found =>
    obtain ⟨name, typeParams⟩ := found
    obtain ⟨hnle, hnstop⟩ := callableName?_stop_le hname
    have hnpart : name.stop ≤ part.length := by omega
    have hnstart : name.start ≤ part.length := by omega
    have htilde : (decide (s + start < s + name.start) && code[s + name.start - 1]? == some '~') =
        (decide (start < name.start) && part[name.start - 1]? == some '~') := by
      by_cases hlt : start < name.start
      · have hat : s + name.start - 1 = s + (name.start - 1) := by omega
        rw [hat, h.getElem? (by omega)]
        simp [hlt]
      · simp [hlt]
    simp only [Option.map_some, Option.bind_eq_bind, Option.bind_some, Range.shift, htilde,
      h.modifiers hnstart, h.isWhiteBetween hnstart, h.window hnpart, h.skipBlanks hnstart]
    split
    · rfl
    · cases hclose : Code.matchingClose? '(' ')' (part.take stop) opening with
      | none => rfl
      | some closing =>
        obtain ⟨-, hlt, hclt, -⟩ := matchingClose?_take_spec hclose
        have hnext : s + closing + 1 = s + (closing + 1) := Nat.add_assoc ..
        simp only [Option.map_some, Option.bind_some, h.parameters? hsealed hlt (by omega), hnext,
          h.window hstop, h.bodyStartFrom hsealed hstop rfl]
        cases part.parameters? opening closing with
        | none => rfl
        | some params =>
          cases part.bodyStartFrom stop 0 (closing + 1) (part.window (closing + 1) stop) with
          | none => rfl
          | some bodyStart =>
            simp only [Option.map_some, Option.bind_some, h.body? hstop]
            cases part.body? bodyStart stop with
            | none => rfl
            | some body =>
              have hmin : min (s + bodyStart) (s + stop) = s + min bodyStart stop := by omega
              simp only [Option.map_some, Option.bind_some, hmin]
              split
              · split <;> rfl
              · rfl

theorem Shows.memberLayout (className : Code) :
    code.memberLayout className ⟨s, s + part.length⟩ =
      (part.memberLayout className ⟨0, part.length⟩).shift s := by
  have hskip : code.skipAttributes s (s + part.length) = s + part.skipAttributes 0 part.length := by
    simpa using h.skipAttributes (i := 0) (Nat.le_refl part.length)
  simp only [Code.memberLayout, hskip]
  generalize part.skipAttributes 0 part.length = start
  rw [h.window (Nat.le_refl _), h.deciderFrom (Nat.le_refl _) (Nat.le_refl _) rfl]
  cases hdecider : part.deciderFrom start part.length 0 0 start (part.window start part.length) with
  | missing => simp [Decider.shift, MemberLayout.shift, Range.shift, MemberShape.shift]
  | «at» pos =>
    obtain ⟨hle, hlt, -⟩ := deciderFrom_spec rfl hdecider
    have hmax : ∀ stop, max (s + stop) (s + start) = s + max stop start := fun stop => by omega
    have harrow : (part[pos]? == some '=' && code[s + pos + 1]? == some '>') =
        (part[pos]? == some '=' && part[pos + 1]? == some '>') := by
      by_cases heq : part[pos]? = some '='
      · rw [h.next_eq_arrow hsealed hlt heq]
      · rw [beq_eq_false_iff_ne.mpr heq, Bool.false_and, Bool.false_and]
    simp only [Decider.shift, h.window (Nat.le_of_lt hlt), h.getElem? hlt, harrow,
      h.callable? hsealed hlt (Nat.le_refl _), h.field? hsealed (Nat.lt_of_le_of_lt hle hlt)
      (Nat.le_refl _)]
    split
    · simp [MemberLayout.shift, Range.shift, MemberShape.shift, hmax]
    · split
      · cases part.callable? className start pos part.length with
        | none => simp [MemberLayout.shift, Range.shift, MemberShape.shift, hmax]
        | some shape =>
          cases hshape : shape.callable? <;>
            simp [MemberLayout.shift, Range.shift, MemberShape.callable?_shift, hshape,
              CallableLayout.shift, hmax, Nat.add_assoc]
      · split
        · simp [MemberLayout.shift, Range.shift, MemberShape.shift, hmax]
        · cases part.field? start part.length <;>
            simp [MemberLayout.shift, Range.shift, MemberShape.shift, hmax]

end

end Code

end ClassRefactor
