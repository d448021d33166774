import ClassRefactor.Proofs.Source.File
import ClassRefactor.Proofs.Text.Cells

/-!
# Guarded steps

The reading of a source is carried out here once more with nothing taken for granted: a cell is
fetched only within the code, a difference is taken only if it is not negative, a range is built
only in order, a text is cut only between characters, and a loop only turns again if it got on. A
step that does not satisfy its guard is a *breach* and ends the reading.

Loops run over positions, not over lists. `sweep_eq` and `sweepDown_eq` say what a loop computes: a
function of its state and position that no turn changes.
-/

namespace ClassRefactor

/-- A step whose guard does not hold. -/
inductive Breach where
  /-- A cell, or an end of a stretch of cells, past the end of the code. -/
  | outside (pos : Nat)
  /-- A difference below zero. -/
  | below (a b : Nat)
  /-- A range out of order, or a cut inside a character or past the end of the text. -/
  | range (fault : Fault)
  /-- A loop or a recursion that does not get on. -/
  | stalled (pos : Nat)
  /-- Cells that are not those of a text. -/
  | garbled
deriving DecidableEq, Repr

/-- A computation that ends at its first breach. -/
abbrev Guarded := Except Breach

namespace Guarded

/-- The cell at a position. -/
def fetch (code : Code) (pos : Nat) : Guarded Char :=
  match code[pos]? with
  | some c => .ok c
  | none => .error (.outside pos)

/-- A difference that is not negative. -/
def minus (a b : Nat) : Guarded Nat := if b ≤ a then .ok (a - b) else .error (.below a b)

/-- The cells before `stop`. -/
def upTo (code : Code) (stop : Nat) : Guarded Code :=
  if stop ≤ code.length then .ok (code.take stop) else .error (.outside stop)

/-- The characters in a range whose ends are in order and on boundaries. -/
def cut (t : Text) (r : Range) : Guarded Text := (t.read r).mapError .range

/-- A range whose ends are in order. -/
def range (start stop : Nat) : Guarded Range := (Range.checked ⟨start, stop⟩).mapError .range

/-- What a turn of a loop leads to. -/
inductive Turn (σ ρ : Type) where
  | done (result : ρ)
  | go (state : σ) (next : Nat)

variable {σ ρ : Type}

/-- A loop upwards: while `pos` is before `stop`, takes a turn with the cell at `pos`. -/
def sweep (code : Code) (stop : Nat) (turn : σ → Nat → Char → Guarded (Turn σ ρ))
    (finish : σ → Nat → Guarded ρ) (s : σ) (pos : Nat) : Guarded ρ :=
  if pos < stop then do
    match ← turn s pos (← fetch code pos) with
    | .done result => return result
    | .go s next =>
      if pos < next then sweep code stop turn finish s next else throw (.stalled pos)
  else finish s pos
termination_by stop - pos

/-- A loop downwards: while `pos` is after `start`, takes a turn with the cell before `pos`. -/
def sweepDown (code : Code) (start : Nat) (turn : σ → Nat → Char → Guarded (Turn σ ρ))
    (finish : σ → Nat → Guarded ρ) (s : σ) (pos : Nat) : Guarded ρ :=
  if start < pos then do
    let prev ← minus pos 1
    match ← turn s prev (← fetch code prev) with
    | .done result => return result
    | .go s next =>
      if next < pos then sweepDown code start turn finish s next else throw (.stalled pos)
  else finish s pos
termination_by pos

/-- The first position from `pos` on, before `stop`, whose cell does not satisfy `p`. -/
def runUp (p : Char → Bool) (code : Code) (pos stop : Nat) : Guarded Nat :=
  sweep code stop (fun _ pos c => return if p c then .go () (pos + 1) else .done pos)
    (fun _ pos => return pos) () pos

/-- The position where the cells before `stop` that satisfy `p` begin, not before `start`. -/
def runDown (p : Char → Bool) (code : Code) (start stop : Nat) : Guarded Nat :=
  sweepDown code start (fun _ prev c => return if p c then .go () prev else .done (prev + 1))
    (fun _ pos => return pos) () stop

@[simp] theorem ok_bind {α β ε : Type} (a : α) (f : α → Except ε β) : (.ok a >>= f) = f a := rfl

@[simp] theorem pure_eq_ok {α ε : Type} (a : α) : (pure a : Except ε α) = .ok a := rfl

theorem fetch_eq {code : Code} {pos : Nat} {c : Char} (h : code[pos]? = some c) :
    fetch code pos = .ok c := by
  simp [fetch, h]

theorem minus_eq {a b : Nat} (h : b ≤ a) : minus a b = .ok (a - b) := if_pos h

theorem upTo_eq {code : Code} {stop : Nat} (h : stop ≤ code.length) :
    upTo code stop = .ok (code.take stop) := if_pos h

theorem range_eq {start stop : Nat} (h : start ≤ stop) : range start stop = .ok ⟨start, stop⟩ := by
  simp [range, Range.checked, h, Except.mapError]

theorem cut_eq {t u : Text} {r : Range} (h : t.read r = .ok u) : cut t r = .ok u := by
  simp [cut, h, Except.mapError]

/-- What a loop upwards answers, if each turn keeps what `f` says of the state and the position. -/
theorem sweep_eq {code : Code} {stop : Nat} {turn : σ → Nat → Char → Guarded (Turn σ ρ)}
    {finish : σ → Nat → Guarded ρ} (f : σ → Nat → ρ) (Inv : σ → Nat → Prop)
    (hstop : stop ≤ code.length)
    (hfinish : ∀ s pos, stop ≤ pos → Inv s pos → finish s pos = .ok (f s pos))
    (hturn : ∀ s pos c, pos < stop → code[pos]? = some c → Inv s pos →
      turn s pos c = .ok (.done (f s pos)) ∨
        ∃ s' next, turn s pos c = .ok (.go s' next) ∧ pos < next ∧ Inv s' next ∧
          f s pos = f s' next)
    {s : σ} {pos : Nat} (hinv : Inv s pos) :
    sweep code stop turn finish s pos = .ok (f s pos) := by
  induction hn : stop - pos using Nat.strongRecOn generalizing s pos with
  | ind n ih =>
    rw [sweep]
    split
    · rename_i hlt
      have hc := List.getElem?_eq_getElem (Nat.lt_of_lt_of_le hlt hstop)
      rw [fetch_eq hc, ok_bind]
      rcases hturn s pos _ hlt hc hinv with hdone | ⟨s', next, hgo, hnext, hinv', hf⟩
      · rw [hdone]
        rfl
      · rw [hgo, ok_bind]
        simp only [hnext, if_true]
        rw [ih (stop - next) (by omega) hinv' rfl, hf]
    · rename_i hge
      exact hfinish s pos (Nat.le_of_not_lt hge) hinv

/-- What a loop downwards answers, if each turn keeps what `f` says of the state and the
position. -/
theorem sweepDown_eq {code : Code} {start : Nat} {turn : σ → Nat → Char → Guarded (Turn σ ρ)}
    {finish : σ → Nat → Guarded ρ} (f : σ → Nat → ρ) (Inv : σ → Nat → Prop)
    (hfinish : ∀ s pos, pos ≤ start → Inv s pos → finish s pos = .ok (f s pos))
    (hturn : ∀ s prev c, start ≤ prev → code[prev]? = some c → Inv s (prev + 1) →
      turn s prev c = .ok (.done (f s (prev + 1))) ∨
        ∃ s', turn s prev c = .ok (.go s' prev) ∧ Inv s' prev ∧ f s (prev + 1) = f s' prev)
    {s : σ} {pos : Nat} (hpos : pos ≤ code.length) (hinv : Inv s pos) :
    sweepDown code start turn finish s pos = .ok (f s pos) := by
  induction pos generalizing s with
  | zero =>
    rw [sweepDown, if_neg (Nat.not_lt_zero _)]
    exact hfinish s 0 (Nat.zero_le _) hinv
  | succ prev ih =>
    rw [sweepDown]
    split
    · rename_i hlt
      have hc := List.getElem?_eq_getElem hpos
      rw [minus_eq (Nat.le_add_left ..), ok_bind, Nat.add_sub_cancel, fetch_eq hc, ok_bind]
      rcases hturn s prev _ (Nat.le_of_lt_succ hlt) hc hinv with hdone | ⟨s', hgo, hinv', hf⟩
      · rw [hdone]
        rfl
      · rw [hgo, ok_bind]
        simp only [Nat.lt_succ_self, if_true]
        rw [ih (Nat.le_of_succ_le hpos) hinv', hf]
    · rename_i hge
      exact hfinish s _ (Nat.le_of_not_lt hge) hinv

end Guarded

namespace Code

variable {code : Code}

/-- The window from a cell on is that cell and the window after it. -/
theorem window_of_lt {pos stop : Nat} {c : Char} (hlt : pos < stop) (hc : code[pos]? = some c) :
    code.window pos stop = c :: code.window (pos + 1) stop := by
  cases h : code.window pos stop with
  | nil =>
    have hbound := (List.getElem?_eq_some_iff.mp hc).1
    have hlen := congrArg List.length h
    simp only [length_window, List.length_nil] at hlen
    omega
  | cons d rest =>
    obtain ⟨-, hd, hrest⟩ := window_eq_cons h
    rw [hc] at hd
    rw [Option.some.inj hd, hrest]

/-- The window up to a cell and that cell. -/
theorem window_succ {start pos : Nat} {c : Char} (hle : start ≤ pos) (hc : code[pos]? = some c) :
    code.window start (pos + 1) = code.window start pos ++ [c] := by
  have hcount : pos + 1 - start = pos - start + 1 := by omega
  have hget : (code.drop start)[pos - start]? = some c := by
    rw [List.getElem?_drop, Nat.add_sub_cancel' hle, hc]
  rw [window, window, hcount, List.take_add_one, hget, Option.toList_some]

end Code

namespace Guarded

variable {code : Code}

theorem runUp_eq (p : Char → Bool) {stop : Nat} (hstop : stop ≤ code.length) (pos : Nat) :
    runUp p code pos stop = .ok (pos + Code.leading p (code.window pos stop)) := by
  refine sweep_eq (fun _ pos => pos + Code.leading p (code.window pos stop)) (fun _ _ => True)
    hstop (fun _ pos hle _ => ?_) (fun _ pos c hlt hc _ => ?_) trivial
  · simp [Code.window_of_le hle, Code.leading]
  · rw [Code.window_of_lt hlt hc, Code.leading_cons]
    by_cases hp : p c = true
    · exact .inr ⟨(), pos + 1, by simp [hp], Nat.lt_succ_self _, trivial, by simp [hp]; omega⟩
    · exact .inl (by simp [hp])

theorem runDown_eq (p : Char → Bool) {start stop : Nat} (hle : start ≤ stop)
    (hstop : stop ≤ code.length) :
    runDown p code start stop = .ok (stop - Code.trailing p (code.window start stop)) := by
  refine sweepDown_eq (fun _ pos => pos - Code.trailing p (code.window start pos))
    (fun _ pos => start ≤ pos) (fun _ pos hpos _ => ?_) (fun _ prev c hprev hc _ => ?_) hstop hle
  · simp [Code.window_of_le hpos, Code.trailing, Code.leading]
  · have hwindow : (code.window start (prev + 1)).reverse =
        c :: (code.window start prev).reverse := by
      rw [Code.window_succ hprev hc]
      simp
    simp only [Code.trailing, hwindow, Code.leading_cons]
    by_cases hp : p c = true
    · exact .inr ⟨(), by simp [hp], hprev, by simp [hp]⟩
    · exact .inl (by simp [hp])

end Guarded

end ClassRefactor
