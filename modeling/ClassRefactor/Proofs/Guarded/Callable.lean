import ClassRefactor.Proofs.Guarded.Reading

/-!
# Guarded reading of constructors and methods

The name before the parameters, the parameters and the body, found by loops over positions. The
loop from the parameters to the body jumps over parentheses.
-/

namespace ClassRefactor.Guarded

/-- A cell of the way back from a `>` to the `<` that it closes. -/
def lessTurn (depth prev : Nat) (c : Char) : Guarded (Turn Nat (Option Nat)) :=
  if c == '>' then return .go (depth + 1) prev
  else if c == '<' then do
    let depth ← minus depth 1
    return if depth == 0 then .done (some prev) else .go depth prev
  else return .go depth prev

/-- The end of a name that stops at `stop` together with its type parameters, and those. There is
no answer for type parameters that do not open. -/
def nameEnd (s : Source) (start stop : Nat) : Guarded (Option (Nat × Option (Range × String))) :=
  if start < stop then do
    if (← fetch s.masked.cells (← minus stop 1)) == '>' then
      match ← sweepDown s.masked.cells start lessTurn (fun _ _ => return none) 0 stop with
      | none => return none
      | some less =>
        let text ← lift (s.verbatim ⟨less, stop⟩)
        return some (← trimBlanks s.masked.cells start less, some (⟨less, stop⟩, text))
    else return some (stop, none)
  else return some (stop, none)

/-- The name before the parameters that open at `opening`, and its type parameters. -/
def callableName (s : Source) (start opening : Nat) :
    Guarded (Option (Range × Option (Range × String))) := do
  match ← nameEnd s start (← trimBlanks s.masked.cells start opening) with
  | none => return none
  | some (nameStop, typeParams) =>
    let nameStart ← runDown (fun c => isIdentCell c || c == '.') s.masked.cells start nameStop
    return if nameStart == nameStop then none else some (⟨nameStart, nameStop⟩, typeParams)

/-- A cell between the parameters and the body. -/
def bodyTurn (code : Code) (stop : Nat) (_ : Unit) (pos : Nat) (c : Char) :
    Guarded (Turn Unit (Option Nat)) :=
  if c == '{' || c == ';' || (c == '=' && code[pos + 1]? == some '>') then return .done (some pos)
  else if c == '(' then do
    match ← matchingClose '(' ')' (← upTo code stop) pos with
    | none => return .done none
    | some close => return .go () (close + 1)
  else return .go () (pos + 1)

/-- Where the body of a callable begins. -/
def bodyStart (code : Code) (stop pos : Nat) : Guarded (Option Nat) :=
  sweep code stop (bodyTurn code stop) (fun _ pos => return some pos) () pos

/-- Reads the statements of the block between two braces. -/
def block (s : Source) (opening closing : Nat) : Guarded (BlockLayout × List Statement) := do
  let ranges ← statementRanges s.masked (opening + 1) closing
  let statements ← ranges.mapM fun r => lift (Statement.read s r)
  return ({ opening, closing, statements := ranges }, statements)

/-- Reads the body that begins at `pos` in a member that stops at `stop`. -/
def body (s : Source) (pos stop : Nat) : Guarded (Option (BodyLayout × Body)) :=
  if stop ≤ pos then return some (.absent, .absent)
  else do
    let c ← fetch s.masked.cells pos
    if c == '{' then
      match ← matchingClose '{' '}' (← upTo s.masked.cells stop) pos with
      | none => return none
      | some close =>
        let (layout, statements) ← block s pos close
        return some (.block layout, .block statements)
    else if c == '=' then
      let r := Range.mk (pos + 2) (← withoutSemicolon s.masked.cells stop)
      return some (.expression r, .expression (← lift (s.opaqueText r)))
    else return some (.absent, .absent)

/-- Whether the name at `pos` is that of a finalizer. -/
def isFinalizer (code : Code) (start pos : Nat) : Guarded Bool :=
  if start < pos then do return (← fetch code (← minus pos 1)) == '~' else return false

/-- Reads the constructor or method whose parameters open at `opening`. -/
def callable (s : Source) (className : Code) (start opening stop : Nat) :
    Guarded (Option (MemberShape × Member)) := do
  match ← callableName s start opening with
  | none => return none
  | some (name, typeParams) =>
    let nameText ← cut s.masked name
    if ← isFinalizer s.masked.cells start name.start then return none
    else
      let (modifiers, resultStart) ← modifiers memberModifiers s.masked start name.start
      let result := Range.mk resultStart name.start
      let resultText ← cut s.masked result
      match ← matchingClose '(' ')' (← upTo s.masked.cells stop) opening with
      | none => return none
      | some closing =>
        match ← parameters s opening closing with
        | none => return none
        | some params =>
          match ← bodyStart s.masked.cells stop (closing + 1) with
          | none => return none
          | some bodyStart =>
            let tail := Range.mk (closing + 1) (min bodyStart stop)
            let tailText ← cut s.text tail
            match ← body s bodyStart stop with
            | none => return none
            | some (bodyLayout, bodyTree) =>
              let lead ← range (← skipBlanks s.masked.cells start name.start) name.start
              let layout : CallableLayout :=
                { lead, modifiers, result, name, typeParams := typeParams.map Prod.fst, opening
                  closing, params := params.map Prod.fst, tail, body := bodyLayout }
              if resultText.trim.isEmpty then
                return if nameText.cells == className then
                  some (.constructor layout, .constructor
                    { name := .ofList nameText, modifiers, parameters := params.map Prod.snd
                      initializer := OpaqueText.initializer? tailText, body := bodyTree })
                else none
              else
                let returnType ← typeAt s result
                return some (.method layout, .method
                  { name := .ofList nameText, typeParams := typeParams.map Prod.snd, modifiers
                    returnType, parameters := params.map Prod.snd
                    constraints :=
                      if tailText.trim.isEmpty then none else some (.ofText tailText.trim)
                    body := bodyTree })

section

variable {code : Code}

theorem sweepDown_lessTurn {start depth pos : Nat} (hdepth : 0 < depth) (hpos : pos ≤ code.length) :
    sweepDown code start lessTurn (fun _ _ => return none) depth pos =
      .ok ((Code.closeFrom '>' '<' (depth - 1) (code.window start pos).reverse).map
        (pos - 1 - ·)) := by
  refine sweepDown_eq (fun depth pos => (Code.closeFrom '>' '<' (depth - 1)
    (code.window start pos).reverse).map (pos - 1 - ·)) (fun depth _ => 0 < depth)
    (fun depth pos hle _ => ?_) (fun depth prev c hprev hc hdepth => ?_) hpos hdepth
  · simp [Code.window_of_le hle, Code.closeFrom]
  · have hwindow : (code.window start (prev + 1)).reverse =
        c :: (code.window start prev).reverse := by
      rw [Code.window_succ hprev hc]
      simp
    have step : ∀ distance : Option Nat, distance.map ((prev - ·) ∘ (· + 1)) =
        distance.map (prev - 1 - ·) := by
      intro distance
      congr 1
      funext n
      simp only [Function.comp]
      omega
    obtain ⟨d, rfl⟩ : ∃ d, depth = d + 1 := ⟨depth - 1, by omega⟩
    simp only [hwindow, Nat.add_sub_cancel, lessTurn, Code.closeFrom, beq_iff_eq]
    by_cases ho : c = '>'
    · exact .inr ⟨d + 2, by simp [ho], by omega, by simp [ho, step]⟩
    · by_cases hcl : c = '<'
      · cases d with
        | zero => exact .inl (by simp [hcl, minus])
        | succ d => exact .inr ⟨d + 1, by simp [hcl, minus], by omega, by simp [hcl, step]⟩
      · exact .inr ⟨d + 1, by simp [ho, hcl], by omega, by simp [ho, hcl, step]⟩

/-- From a `>` back to the `<` that it closes. -/
theorem sweepDown_less {start stop : Nat} (hlt : start < stop) (hstop : stop ≤ code.length)
    (hclose : code[stop - 1]? = some '>') :
    sweepDown code start lessTurn (fun _ _ => return none) 0 stop =
      .ok ((Code.matchingClose? '>' '<' (code.window start stop).reverse 0).map
        (stop - 1 - ·)) := by
  obtain ⟨prev, rfl⟩ : ∃ prev, stop = prev + 1 := ⟨stop - 1, by omega⟩
  rw [Nat.add_sub_cancel] at hclose ⊢
  have hwindow : (code.window start (prev + 1)).reverse =
      '>' :: (code.window start prev).reverse := by
    rw [Code.window_succ (by omega) hclose]
    simp
  have hturn : lessTurn 0 prev '>' = .ok (.go 1 prev) := rfl
  rw [sweepDown, if_pos hlt, minus_eq (Nat.le_add_left ..), ok_bind, Nat.add_sub_cancel,
    fetch_eq hclose, ok_bind, hturn, ok_bind]
  simp only [Nat.lt_succ_self, if_true]
  rw [sweepDown_lessTurn Nat.one_pos (by omega), Nat.sub_self, hwindow]
  simp only [Code.matchingClose?, List.drop_zero, beq_self_eq_true, if_true, Option.map_map]
  congr 2
  funext n
  simp only [Function.comp]
  omega

end

/-- The end of a name, told from the masked text alone. -/
def nameEnd? (code : Code) (start stop : Nat) : Option (Nat × Option Range) :=
  if start < stop && code[stop - 1]? == some '>' then do
    let width ← Code.matchingClose? '>' '<' (code.window start stop).reverse 0
    let less := stop - 1 - width
    some (code.trimBlanks start less, some ⟨less, stop⟩)
  else some (stop, none)

/-- The name of a callable goes back from its end to where it begins. -/
theorem callableName?_eq_bind (code : Code) (start opening : Nat) :
    code.callableName? start opening =
      (nameEnd? code start (code.trimBlanks start opening)).bind fun (nameStop, typeParams) =>
        let width := Code.trailing (fun c => isIdentCell c || c == '.')
          (code.window start nameStop)
        if width == 0 then none else some (⟨nameStop - width, nameStop⟩, typeParams) := by
  simp only [Code.callableName?, nameEnd?, Option.bind_eq_bind]
  split
  · rw [Option.bind_assoc]
  · rfl

section

variable {s : Source} (hs : s.Sound)
include hs

theorem nameEnd_spec {start stop : Nat} (hle : start ≤ stop)
    (hstart : Code.Seam s.masked.cells start) (hstop : Code.Seam s.masked.cells stop) :
    ∃ o, nameEnd s start stop = .ok o ∧ Option.Rel (fun p q => q.1 = p.1 ∧
      q.2.map Prod.fst = p.2 ∧ Source.optional s.verbatim p.2 = .ok (q.2.map Prod.snd) ∧
      start ≤ p.1 ∧ Code.Seam s.masked.cells p.1) (nameEnd? s.masked.cells start stop) o := by
  have plain : Option.Rel (fun (p : Nat × Option Range) (q : Nat × Option (Range × String)) =>
      q.1 = p.1 ∧ q.2.map Prod.fst = p.2 ∧
        Source.optional s.verbatim p.2 = .ok (q.2.map Prod.snd) ∧
        start ≤ p.1 ∧ Code.Seam s.masked.cells p.1) (some (stop, none)) (some (stop, none)) :=
    .some ⟨rfl, rfl, rfl, hle, hstop⟩
  unfold nameEnd nameEnd?
  split
  · rename_i hlt
    obtain ⟨c, hc⟩ : ∃ c, s.masked.cells[stop - 1]? = some c :=
      ⟨_, List.getElem?_eq_getElem (by have := hstop.le; omega)⟩
    rw [minus_eq (by omega), ok_bind, fetch_eq hc, ok_bind, hc]
    by_cases hgreater : c = '>'
    · subst hgreater
      rw [sweepDown_less hlt hstop.le hc]
      simp only [beq_self_eq_true, if_true, ok_bind, hlt, decide_true, Bool.and_self]
      cases hwidth : Code.matchingClose? '>' '<' (Code.window s.masked.cells start stop).reverse 0
        with
      | none => exact ⟨none, rfl, .none⟩
      | some width =>
        obtain ⟨hless, hlt', hcell⟩ := Code.matchingOpen_spec hstop.le hwidth
        have hseam := (Code.seam_of_solid hcell (by decide)).1
        obtain ⟨ht1, -, ht3⟩ := Code.trimBlanks_spec hless hstart hseam
        have htext := Source.verbatim_eq hs (r := ⟨stop - 1 - width, stop⟩)
          ⟨Nat.le_of_lt hlt', hseam, hstop⟩
        simp only [Option.map_some, lift_eq htext, ok_bind, trimBlanks_eq hless hseam.le]
        exact ⟨_, rfl, .some ⟨rfl, rfl, by rw [Source.optional, htext]; rfl, ht1, ht3⟩⟩
    · have hne : (c == '>') = false := beq_eq_false_iff_ne.mpr hgreater
      have hsome : (some c == some '>') = false := by simpa using hgreater
      simp only [hne, hsome, Bool.and_false, Bool.false_eq_true, if_false]
      exact ⟨_, rfl, plain⟩
  · rename_i hge
    simp only [hge, decide_false, Bool.false_and, Bool.false_eq_true, if_false]
    exact ⟨_, rfl, plain⟩

theorem callableName_spec {start opening : Nat} (hle : start ≤ opening)
    (hstart : Code.Seam s.masked.cells start) (hopen : Code.Seam s.masked.cells opening) :
    ∃ o, callableName s start opening = .ok o ∧ Option.Rel (fun p q => q.1 = p.1 ∧
      q.2.map Prod.fst = p.2 ∧ Source.optional s.verbatim p.2 = .ok (q.2.map Prod.snd))
      (Code.callableName? s.masked.cells start opening) o := by
  obtain ⟨ht1, -, ht3⟩ := Code.trimBlanks_spec hle hstart hopen
  obtain ⟨o, ho, hname⟩ := nameEnd_spec hs ht1 hstart ht3
  rw [callableName, trimBlanks_eq hle hopen.le, ok_bind, ho, ok_bind,
    callableName?_eq_bind]
  generalize nameEnd? s.masked.cells start _ = found at hname
  cases hname with
  | none => exact ⟨none, rfl, .none⟩
  | @some p q hq =>
    obtain ⟨nameStop, typeParams⟩ := p
    obtain ⟨nameStop', typeParams'⟩ := q
    obtain ⟨h1, h2, h3, h4, h5⟩ := hq
    simp only at h1 h2 h3 h4 h5
    subst h1
    have hlen := Code.trailing_le (fun c => isIdentCell c || c == '.')
      (Code.window s.masked.cells start nameStop')
    rw [Code.length_window_of_le h5.le] at hlen
    have hsame : (nameStop' - Code.trailing (fun c => isIdentCell c || c == '.')
        (Code.window s.masked.cells start nameStop') == nameStop') =
        (Code.trailing (fun c => isIdentCell c || c == '.')
          (Code.window s.masked.cells start nameStop') == 0) := by
      rw [Bool.eq_iff_iff]
      simp only [beq_iff_eq]
      omega
    simp only [runDown_eq _ h4 h5.le, ok_bind, Option.bind_some, hsame]
    split
    · exact ⟨none, rfl, .none⟩
    · exact ⟨_, rfl, .some ⟨rfl, h2, h3⟩⟩

end

/-- Cells that are passed over do not count. -/
theorem bodyStartFrom_skip {code : Code} {stop skip pos : Nat} {cells : Code}
    (h : skip ≤ cells.length) :
    code.bodyStartFrom stop skip pos cells =
      code.bodyStartFrom stop 0 (pos + skip) (cells.drop skip) := by
  induction skip generalizing pos cells with
  | zero => rfl
  | succ skip ih =>
    cases cells with
    | nil => exact absurd h (Nat.not_succ_le_zero _)
    | cons c rest =>
      have hat : pos + 1 + skip = pos + (skip + 1) := by omega
      rw [Code.bodyStartFrom, ih (Nat.le_of_succ_le_succ h), List.drop_succ_cons, hat]

/-- A matching parenthesis before `stop` is passed over with the cells up to it. -/
theorem window_drop_close {code : Code} {opening closing : Char} {pos stop close : Nat}
    (hstop : stop ≤ code.length)
    (h : Code.matchingClose? opening closing (code.take stop) pos = some close) :
    pos < close ∧ close - pos ≤ (code.window (pos + 1) stop).length ∧
      pos + 1 + (close - pos) = close + 1 ∧
      (code.window (pos + 1) stop).drop (close - pos) = code.window (close + 1) stop := by
  obtain ⟨-, hlt, hclose, -⟩ := Code.matchingClose?_take_spec h
  have hat : pos + 1 + (close - pos) = close + 1 := by omega
  refine ⟨hlt, ?_, hat, by rw [Code.window_drop, hat]⟩
  rw [Code.length_window_of_le hstop]
  omega

theorem bodyStart_eq {code : Code} {stop : Nat} (hstop : stop ≤ code.length) (pos : Nat) :
    bodyStart code stop pos = .ok (code.bodyStartFrom stop 0 pos (code.window pos stop)) := by
  refine sweep_eq (fun _ pos => code.bodyStartFrom stop 0 pos (code.window pos stop))
    (fun _ _ => True) hstop (fun _ pos hle _ => ?_) (fun _ pos c hlt hc _ => ?_) trivial
  · rw [Code.window_of_le hle]
    rfl
  · rw [Code.window_of_lt hlt hc, Code.bodyStartFrom, bodyTurn]
    split
    · exact .inl rfl
    · split
      · rw [upTo_eq hstop, ok_bind, matchingClose_eq (by decide), ok_bind]
        cases hclose : Code.matchingClose? '(' ')' (code.take stop) pos with
        | none => exact .inl rfl
        | some close =>
          obtain ⟨hgrow, hlen, hat, hdrop⟩ := window_drop_close hstop hclose
          refine .inr ⟨(), close + 1, rfl, by omega, trivial, ?_⟩
          simp only
          rw [bodyStartFrom_skip hlen, hat, hdrop]
      · exact .inr ⟨(), pos + 1, rfl, Nat.lt_succ_self _, trivial, rfl⟩

section

variable {s : Source} (hs : s.Sound)
include hs

theorem block_spec {opening closing : Nat} (hlt : opening < closing)
    (hopen : Code.Seam s.masked.cells (opening + 1)) (hclose : Code.Seam s.masked.cells closing) :
    ∃ statements, block s opening closing =
        .ok (Code.blockLayout s.masked.cells opening closing, statements) ∧
      (Code.blockLayout s.masked.cells opening closing).statements.mapM (Statement.read s) =
        .ok statements := by
  have hfits := (Code.statementRanges_spec hlt hopen hclose).2
  obtain ⟨statements, hstatements⟩ :=
    exists_mapM_eq_ok fun r hr => ⟨_, Statement.read_eq hs (hfits r hr)⟩
  have hguarded : (Code.statementRanges s.masked.cells (opening + 1) closing).mapM
      (fun r => lift (Statement.read s r)) = .ok statements := by
    rw [mapM_eq_ok_iff] at hstatements ⊢
    exact hstatements.imp fun _ _ => lift_eq
  refine ⟨statements, ?_, hstatements⟩
  rw [block, statementRanges_eq hlt hopen hclose, ok_bind, hguarded]
  rfl

theorem body_spec {pos stop : Nat} (hpos : Code.BodyStart s.masked.cells stop pos)
    (hstop : Code.Seam s.masked.cells stop) (huncut : Code.Uncut s.masked.cells stop)
    (hlo : 0 < pos) :
    ∃ o, body s pos stop = .ok o ∧
      Answers (BodyLayout.read s) (Code.body? s.masked.cells pos stop) o := by
  have hread := fun (b : BodyLayout) (h : Code.body? s.masked.cells pos stop = some b) =>
    (Code.body?_spec hlo hpos hstop huncut h).1
  unfold body
  unfold Code.body? at hread ⊢
  split
  · exact ⟨_, rfl, .some ⟨rfl, rfl⟩⟩
  · rename_i hlt
    have hlt := Nat.lt_of_not_le hlt
    obtain ⟨c, hc⟩ : ∃ c, s.masked.cells[pos]? = some c :=
      ⟨_, List.getElem?_eq_getElem (Nat.lt_of_lt_of_le hlt hstop.le)⟩
    rw [if_neg (Nat.not_le_of_lt hlt)] at hread
    rw [fetch_eq hc, ok_bind]
    simp only [hc] at hread ⊢
    by_cases hopen : c = '{'
    · subst hopen
      simp only [beq_self_eq_true, if_true, upTo_eq hstop.le, ok_bind,
        matchingClose_eq (show '{' ≠ '}' by decide)]
      cases hclose : Code.matchingClose? '{' '}' (s.masked.cells.take stop) pos with
      | none => exact ⟨none, rfl, .none⟩
      | some close =>
        obtain ⟨-, h1, h2, h3⟩ := Code.matchingClose?_take_spec hclose
        obtain ⟨statements, hblock, hstatements⟩ := block_spec hs h1
          (Code.seam_of_solid hc (by decide)).2 (Code.seam_of_solid h3 (by decide)).1
        simp only [hblock, ok_bind]
        refine ⟨_, rfl, .some ⟨rfl, ?_⟩⟩
        rw [BodyLayout.read, hstatements]
        rfl
    · have hopen' : (c == '{') = false := beq_eq_false_iff_ne.mpr hopen
      have hopen'' : (some c == some '{') = false := by simpa using hopen
      simp only [hopen', hopen'', Bool.false_eq_true, if_false] at hread ⊢
      by_cases heq : c = '='
      · subst heq
        simp only [beq_self_eq_true, if_true, withoutSemicolon_eq (by omega) hstop.le, ok_bind]
          at hread ⊢
        have htext := Source.opaqueText_eq hs (hread _ rfl)
        rw [lift_eq htext, ok_bind]
        refine ⟨_, rfl, .some ⟨rfl, ?_⟩⟩
        rw [BodyLayout.read, htext]
        rfl
      · have heq' : (c == '=') = false := beq_eq_false_iff_ne.mpr heq
        have heq'' : (some c == some '=') = false := by simpa using heq
        simp only [heq', heq'', Bool.false_eq_true, if_false]
        exact ⟨_, rfl, .some ⟨rfl, rfl⟩⟩

end

theorem isFinalizer_eq {code : Code} {start pos : Nat} (hpos : pos ≤ code.length) :
    isFinalizer code start pos = .ok (decide (start < pos) && code[pos - 1]? == some '~') := by
  unfold isFinalizer
  split
  · rename_i hlt
    have hc := List.getElem?_eq_getElem (l := code) (i := pos - 1) (by omega)
    rw [minus_eq (by omega), ok_bind, fetch_eq hc, ok_bind, hc]
    simp [hlt]
  · rename_i hge
    simp [hge]

/-- Reads a shape in a member that takes up a range. -/
def readShape (s : Source) (r : Range) : MemberShape → Except Fault Member
  | .field f => do return .field (← f.read s)
  | .constructor c => do return .constructor (← c.readConstructor s)
  | .method c => do return .method (← c.readMethod s)
  | .other => do return .other (← s.opaqueText r)

section

variable {s : Source} (hs : s.Sound)
include hs

theorem callable_spec (className : Code) {start opening stop : Nat} (hle : start ≤ opening)
    (hopen : s.masked.cells[opening]? = some '(') (hstart : Code.Seam s.masked.cells start)
    (hstop : Code.Seam s.masked.cells stop) (huncut : Code.Uncut s.masked.cells stop) (r : Range) :
    ∃ o, callable s className start opening stop = .ok o ∧
      Answers (readShape s r) (Code.callable? s.masked.cells className start opening stop) o := by
  have hopenSeam := Code.seam_of_solid hopen (by decide)
  obtain ⟨o, ho, hname⟩ := callableName_spec hs hle hstart hopenSeam.1
  have hspec := fun (name : Range) (typeParams : Option Range)
    (h : Code.callableName? s.masked.cells start opening = some (name, typeParams)) =>
      Code.callableName?_spec hle hstart hopenSeam.1 h
  rw [callable, ho, ok_bind, Code.callable?]
  generalize Code.callableName? s.masked.cells start opening = found at hname hspec
  cases hname with
  | none => exact ⟨none, rfl, .none⟩
  | @some p q hq =>
    obtain ⟨name, typeRanges⟩ := p
    obtain ⟨name', typeParams⟩ := q
    obtain ⟨h1, h2, htypeParams⟩ := hq
    simp only at h1 h2 htypeParams
    subst h1 h2
    obtain ⟨hn1, -, -, hn4, -⟩ := hspec _ _ rfl
    obtain ⟨hcut, hcells⟩ := cut_of_fits hn4
    have hnameRead := Source.name_eq hs hn4
    obtain ⟨hl1, hl2, hl3⟩ := Code.skipBlanks_spec hn1 hstart hn4.2.1
    obtain ⟨hm1, hm2, hm3⟩ := Code.modifiers_spec memberModifiers hn1 hstart hn4.2.1
    simp only [hcut, isFinalizer_eq hn4.2.1.le, ok_bind, Option.bind_eq_bind, Option.bind_some,
      modifiers_eq memberModifiers hn1 hstart hn4.2.1]
    split
    · exact ⟨none, rfl, .none⟩
    · generalize Code.modifiers memberModifiers s.masked.cells start name'.start = lead at *
      obtain ⟨modifiers, resultStart⟩ := lead
      have hresult : Code.Fits s.masked.cells ⟨resultStart, name'.start⟩ := ⟨hm2, hm3, hn4.2.1⟩
      obtain ⟨hresultCut, hresultCells⟩ := cut_of_fits hresult
      simp only [hresultCut, upTo_eq hstop.le, ok_bind,
        matchingClose_eq (show '(' ≠ ')' by decide)]
      cases hclosing : Code.matchingClose? '(' ')' (s.masked.cells.take stop) opening with
      | none => exact ⟨none, rfl, .none⟩
      | some closing =>
        obtain ⟨-, hlt, hclt, hclose⟩ := Code.matchingClose?_take_spec hclosing
        have hcloseSeam := Code.seam_of_solid hclose (by decide)
        obtain ⟨op, hop, hparams⟩ := parameters_spec hs hlt hopenSeam.2 hcloseSeam.1
        simp only [hop, ok_bind, Option.bind_some]
        generalize Code.parameters? s.masked.cells opening closing = paramLayouts at hparams
        cases hparams with
        | none => exact ⟨none, rfl, .none⟩
        | @some layouts params hparams =>
          obtain ⟨rfl, hparams⟩ := hparams
          simp only [bodyStart_eq hstop.le, ok_bind, Option.bind_some]
          cases hbodyStart : Code.bodyStartFrom s.masked.cells stop 0 (closing + 1)
              (Code.window s.masked.cells (closing + 1) stop) with
          | none => exact ⟨none, rfl, .none⟩
          | some pos =>
            obtain ⟨hb1, hb2⟩ := Code.bodyStartFrom_spec hstop.le hclt rfl hbodyStart
            have hmin : min pos stop = pos := Nat.min_eq_left hb2.le
            have htail : Code.Fits s.masked.cells ⟨closing + 1, min pos stop⟩ := by
              rw [hmin]
              exact ⟨hb1, hcloseSeam.2, hb2.seam hstop⟩
            have htailRead := hs.read htail
            obtain ⟨ob, hob, hbody⟩ := body_spec hs hb2 hstop huncut (by omega)
            simp only [cut_eq htailRead, hob, ok_bind, Option.bind_some]
            generalize Code.body? s.masked.cells pos stop = bodyLayout at hbody
            cases hbody with
            | none => exact ⟨none, rfl, .none⟩
            | @some layout b hb =>
              obtain ⟨bodyLayout, bodyTree⟩ := b
              obtain ⟨hb', hbodyRead⟩ := hb
              simp only at hb' hbodyRead
              subst hb'
              have hwhite : (s.masked.slice resultStart name'.start).trim.isEmpty =
                  Code.isWhiteBetween s.masked.cells resultStart name'.start := by
                rw [trim_isEmpty, hresultCells]
                rfl
              simp only [skipBlanks_eq hn4.2.1.le, range_eq hl2, ok_bind, hwhite, hcells]
              split
              · split
                · refine ⟨_, rfl, .some ⟨rfl, ?_⟩⟩
                  simp [readShape, CallableLayout.readConstructor, Range.checked, hl2, hnameRead,
                    hparams, htailRead, hbodyRead]
                · exact ⟨none, rfl, .none⟩
              · have htype := Source.type_eq hs hresult
                rw [typeAt_eq htype, ok_bind]
                refine ⟨_, rfl, .some ⟨rfl, ?_⟩⟩
                simp [readShape, CallableLayout.readMethod, Range.checked, hl2, hnameRead,
                  htypeParams, htype, hparams, Source.clause, htailRead, hbodyRead]

end

end ClassRefactor.Guarded
