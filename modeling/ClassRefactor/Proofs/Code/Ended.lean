import Mathlib.Data.List.Induction
import ClassRefactor.Proofs.Code.Spaced

/-!
# Segments that have ended

A cut passes over some cells, and some segments end in them. If none is open at the end of the cells,
the segments that ended stay what they are whatever follows, and what follows is cut on its own.
-/

namespace ClassRefactor

namespace Segment

/-- The segments that end in some cells, and the state after these cells. -/
def endedFrom (code : Code) (rule : AfterBlock.Rule) (stop : Nat) (s : State) (pos : Nat) :
    Code → List Range × State
  | [] => ([], s)
  | c :: rest =>
    if s.start.isNone && isLayoutBlank c then endedFrom code rule stop s (pos + 1) rest
    else
      let start := s.start.getD pos
      match advance code rule stop start s pos c with
      | none =>
        let (rs, s) := endedFrom code rule stop {} (pos + 1) rest
        (⟨start, pos + 1⟩ :: rs, s)
      | some s => endedFrom code rule stop s (pos + 1) rest

section

variable {code : Code} {rule : AfterBlock.Rule} {stop : Nat}

/-- A cut goes on from the state that it has reached. -/
theorem rangesFrom_append (s : State) (pos : Nat) (l r : Code) :
    rangesFrom code rule stop s pos (l ++ r) =
      (endedFrom code rule stop s pos l).1 ++
        rangesFrom code rule stop (endedFrom code rule stop s pos l).2 (pos + l.length) r := by
  induction l generalizing s pos with
  | nil => rfl
  | cons c l ih =>
    have hlen : pos + (c :: l).length = pos + 1 + l.length := by rw [List.length_cons]; omega
    rw [List.cons_append, rangesFrom, endedFrom, hlen]
    simp only
    split
    · exact ih s (pos + 1)
    · cases advance code rule stop (s.start.getD pos) s pos c with
      | none => simp only [ih, List.cons_append]
      | some next => exact ih next (pos + 1)

theorem endedFrom_append (s : State) (pos : Nat) (l r : Code) :
    endedFrom code rule stop s pos (l ++ r) =
      ((endedFrom code rule stop s pos l).1 ++
          (endedFrom code rule stop (endedFrom code rule stop s pos l).2 (pos + l.length) r).1,
        (endedFrom code rule stop (endedFrom code rule stop s pos l).2 (pos + l.length) r).2) := by
  induction l generalizing s pos with
  | nil => rfl
  | cons c l ih =>
    have hlen : pos + (c :: l).length = pos + 1 + l.length := by rw [List.length_cons]; omega
    rw [List.cons_append, endedFrom, endedFrom, hlen]
    simp only
    split
    · exact ih s (pos + 1)
    · cases advance code rule stop (s.start.getD pos) s pos c with
      | none => simp only [ih, List.cons_append]
      | some next => exact ih next (pos + 1)

theorem rangesFrom_of_blanks {b : Code} (hb : ∀ c ∈ b, isLayoutBlank c = true) (pos : Nat) :
    rangesFrom code rule stop {} pos b = [] := by
  rw [← List.append_nil b, rangesFrom_blanks hb]
  rfl

/-- One segment with blanks around it. -/
theorem Cut.rangesFrom {x k y : Code} {pos : Nat} (h : Cut code rule stop k)
    (hx : ∀ c ∈ x, isLayoutBlank c = true) (hy : ∀ c ∈ y, isLayoutBlank c = true)
    (hcells : code.window pos stop = x ++ k ++ y) :
    Segment.rangesFrom code rule stop {} pos (x ++ k ++ y) =
      [⟨pos + x.length, pos + x.length + k.length⟩] := by
  rw [List.append_assoc] at hcells ⊢
  have hrest := (Code.window_eq_append hcells).2
  rw [rangesFrom_blanks hx, h _ _ hrest (Code.unassigned_blanks hy), rangesFrom_of_blanks hy]

/-- A segment that is open behind some cells began in them, or was open before. -/
theorem begun_of_endedFrom {s : State} {lo pos p : Nat} {l : Code} (hlo : lo ≤ pos)
    (hs : ∀ q, s.start = some q → lo ≤ q ∧ q < pos)
    (h : (endedFrom code rule stop s pos l).2.start = some p) :
    lo ≤ p ∧ p < pos + l.length := by
  induction l generalizing s pos with
  | nil => exact hs p h
  | cons c l ih =>
    have hnext : ∀ {s' : State}, (∀ q, s'.start = some q → lo ≤ q ∧ q < pos + 1) →
        (endedFrom code rule stop s' (pos + 1) l).2.start = some p →
        lo ≤ p ∧ p < pos + (c :: l).length := by
      intro s' hs' h
      have := ih (Nat.le_succ_of_le hlo) hs' h
      rw [List.length_cons]
      omega
    have hlater : ∀ q, s.start = some q → lo ≤ q ∧ q < pos + 1 := fun q hq => by
      have := hs q hq
      omega
    rw [endedFrom] at h
    simp only at h
    split at h
    · exact hnext hlater h
    · cases hadvance : advance code rule stop (s.start.getD pos) s pos c with
      | none =>
        simp only [hadvance] at h
        exact hnext (by simp) h
      | some next =>
        simp only [hadvance] at h
        refine hnext (fun q hq => ?_) h
        rw [start_of_advance_eq_some hadvance] at hq
        obtain rfl := Option.some.inj hq
        cases hs : s.start with
        | none => exact ⟨hlo, Nat.lt_succ_self _⟩
        | some q => exact hlater q hs

/-- No segment is open only where a cut begins anew. -/
theorem endedFrom_clear {s : State} (hs : s.start = none → s = {}) (pos : Nat) (l : Code)
    (h : (endedFrom code rule stop s pos l).2.start = none) :
    (endedFrom code rule stop s pos l).2 = {} := by
  induction l generalizing s pos with
  | nil => exact hs h
  | cons c l ih =>
    rw [endedFrom] at h ⊢
    simp only at h ⊢
    split at h
    · rename_i hskip
      rw [if_pos hskip]
      exact ih hs (pos + 1) h
    · rename_i hskip
      rw [if_neg hskip]
      cases hnext : advance code rule stop (s.start.getD pos) s pos c with
      | none =>
        simp only [hnext] at h ⊢
        exact ih (fun _ => rfl) (pos + 1) h
      | some next =>
        simp only [hnext] at h ⊢
        refine ih (fun hnone => ?_) (pos + 1) h
        rw [start_of_advance_eq_some hnext] at hnone
        cases hnone

/-- Where no segment is open behind cells that end none, these are blanks, and none is open before
them. -/
theorem blanks_of_endedFrom {s : State} (hs : s.start = none → s = {}) {pos : Nat} {l : Code}
    (hl : ∀ c ∈ l, c ≠ ';' ∧ c ≠ '}') (h : (endedFrom code rule stop s pos l).2 = {}) :
    s = {} ∧ ∀ c ∈ l, isLayoutBlank c = true := by
  induction l generalizing s pos with
  | nil => exact ⟨h, by simp⟩
  | cons c l ih =>
    have hlater := fun d hd => hl d (List.mem_cons_of_mem c hd)
    rw [endedFrom] at h
    simp only at h
    split at h
    · rename_i hskip
      rw [Bool.and_eq_true] at hskip
      obtain ⟨hempty, hblanks⟩ := ih hs hlater h
      exact ⟨hempty, List.forall_mem_cons.mpr ⟨hskip.2, hblanks⟩⟩
    · cases hnext : advance code rule stop (s.start.getD pos) s pos c with
      | none =>
        have hc := hl c List.mem_cons_self
        rcases terminator_of_advance_eq_none hnext with heq | heq
        · exact absurd heq hc.1
        · exact absurd heq hc.2
      | some next =>
        have hkeep := start_of_advance_eq_some hnext
        simp only [hnext] at h
        obtain ⟨hempty, -⟩ := ih (fun hnone => by rw [hkeep] at hnone; cases hnone) hlater h
        rw [hempty] at hkeep
        cases hkeep

/-- A segment that has ended ends with its terminator, within the cells. -/
theorem ends_of_mem_endedFrom {s : State} {pos : Nat} {l : Code}
    (hs : ∀ start, s.start = some start → start < pos) (hcells : ∃ r, code.drop pos = l ++ r) :
    ∀ r ∈ (endedFrom code rule stop s pos l).1, r.start < r.stop ∧ pos < r.stop ∧
      r.stop ≤ pos + l.length ∧ (code[r.stop - 1]? = some ';' ∨ code[r.stop - 1]? = some '}') := by
  induction l generalizing s pos with
  | nil => simp [endedFrom]
  | cons c l ih =>
    obtain ⟨after, hafter⟩ := hcells
    have hc : code[pos]? = some c := by rw [← List.head?_drop, hafter]; rfl
    have hrest : ∃ r, code.drop (pos + 1) = l ++ r :=
      ⟨after, by rw [← List.drop_drop, hafter]; rfl⟩
    have hstart : s.start.getD pos < pos + 1 := by
      cases h : s.start with
      | none => simp
      | some p => exact Nat.lt_succ_of_lt (hs p h)
    have hlater : ∀ {s' : State}, (∀ start, s'.start = some start → start < pos + 1) →
        ∀ r ∈ (endedFrom code rule stop s' (pos + 1) l).1, r.start < r.stop ∧ pos < r.stop ∧
          r.stop ≤ pos + (c :: l).length ∧
          (code[r.stop - 1]? = some ';' ∨ code[r.stop - 1]? = some '}') := by
      intro s' hs' r hr
      have := ih hs' hrest r hr
      rw [List.length_cons]
      exact ⟨this.1, by omega, by omega, this.2.2.2⟩
    intro r hr
    rw [endedFrom] at hr
    simp only at hr
    split at hr
    · exact hlater (fun p hp => Nat.lt_succ_of_lt (hs p hp)) r hr
    · cases hnext : advance code rule stop (s.start.getD pos) s pos c with
      | none =>
        simp only [hnext, List.mem_cons] at hr
        rcases hr with rfl | hr
        · refine ⟨hstart, Nat.lt_succ_self pos, by simp, ?_⟩
          simp only [Nat.add_sub_cancel, hc, Option.some.injEq]
          exact terminator_of_advance_eq_none hnext
        · exact hlater (by simp) r hr
      | some next =>
        simp only [hnext] at hr
        refine hlater (fun p hp => ?_) r hr
        rw [start_of_advance_eq_some hnext] at hp
        exact Option.some.inj hp ▸ hstart

/-- Where a segment has ended, none is open. -/
theorem clear_of_mem_endedFrom {s : State} {pos : Nat} {l : Code} {r : Range}
    (h : r ∈ (endedFrom code rule stop s pos l).1) :
    ∃ front back, l = front ++ back ∧ r.stop = pos + front.length ∧
      (endedFrom code rule stop s pos front).2 = {} := by
  induction l generalizing s pos with
  | nil => cases h
  | cons c l ih =>
    have hnext : ∀ {s' : State}, r ∈ (endedFrom code rule stop s' (pos + 1) l).1 →
        ∃ front back, c :: l = c :: front ++ back ∧ r.stop = pos + (c :: front).length ∧
          (endedFrom code rule stop s' (pos + 1) front).2 = {} := by
      intro s' h
      obtain ⟨front, back, rfl, hstop, hclear⟩ := ih h
      exact ⟨front, back, rfl, by rw [hstop, List.length_cons]; omega, hclear⟩
    rw [endedFrom] at h
    simp only at h
    split at h
    · rename_i hskip
      obtain ⟨front, back, heq, hstop, hclear⟩ := hnext h
      refine ⟨c :: front, back, heq, hstop, ?_⟩
      rw [endedFrom, if_pos hskip, hclear]
    · rename_i hskip
      cases hadvance : advance code rule stop (s.start.getD pos) s pos c with
      | none =>
        simp only [hadvance, List.mem_cons] at h
        rcases h with rfl | h
        · refine ⟨[c], l, rfl, rfl, ?_⟩
          rw [endedFrom, if_neg hskip]
          simp only [hadvance]
          rfl
        · obtain ⟨front, back, heq, hstop, hclear⟩ := hnext h
          refine ⟨c :: front, back, heq, hstop, ?_⟩
          rw [endedFrom, if_neg hskip]
          simp only [hadvance, hclear]
      | some next =>
        simp only [hadvance] at h
        obtain ⟨front, back, heq, hstop, hclear⟩ := hnext h
        refine ⟨c :: front, back, heq, hstop, ?_⟩
        rw [endedFrom, if_neg hskip]
        simp only [hadvance, hclear]

/-- Where no segment is open, only blanks follow the last terminator. -/
theorem last_of_endedFrom {s : State} {pos : Nat} {l : Code} {c : Char}
    (h : (endedFrom code rule stop s pos l).2 = {}) (hlast : l.getLast? = some c) :
    isLayoutBlank c = true ∨ c = ';' ∨ c = '}' := by
  obtain ⟨init, rfl⟩ := List.getLast?_eq_some_iff.mp hlast
  rw [endedFrom_append] at h
  generalize (endedFrom code rule stop s pos init).2 = s' at h
  rw [endedFrom] at h
  simp only at h
  split at h
  · rename_i hskip
    rw [Bool.and_eq_true] at hskip
    exact .inl hskip.2
  · cases hnext : advance code rule stop (s'.start.getD (pos + init.length)) s'
        (pos + init.length) c with
    | none => exact .inr (terminator_of_advance_eq_none hnext)
    | some next =>
      have hkeep := start_of_advance_eq_some hnext
      simp only [hnext, endedFrom] at h
      rw [h] at hkeep
      cases hkeep

/-- Where no segment is open, blanks follow the last terminator, if there is one. -/
theorem exists_end_of_endedFrom {pos : Nat} {l : Code}
    (h : (endedFrom code rule stop {} pos l).2 = {}) :
    ∃ front b, l = front ++ b ∧ (∀ c ∈ b, isLayoutBlank c = true) ∧
      (front = [] ∨ ∃ c, front.getLast? = some c ∧ (c = ';' ∨ c = '}')) := by
  induction l using List.reverseRecOn with
  | nil => exact ⟨[], [], rfl, by simp, .inl rfl⟩
  | append_singleton l c ih =>
    rcases last_of_endedFrom h (List.getLast?_concat ..) with hblank | hend
    · have hone : ∀ d ∈ [c], d ≠ ';' ∧ d ≠ '}' := by
        intro d hd
        rw [List.mem_singleton.mp hd]
        constructor <;> rintro rfl <;> exact absurd hblank (by decide)
      rw [endedFrom_append] at h
      obtain ⟨hempty, -⟩ := blanks_of_endedFrom (endedFrom_clear (fun _ => rfl) pos l) hone h
      obtain ⟨front, b, rfl, hb, hfront⟩ := ih hempty
      refine ⟨front, b ++ [c], by simp, fun d hd => ?_, hfront⟩
      rcases List.mem_append.mp hd with hd | hd
      · exact hb d hd
      · rw [List.mem_singleton.mp hd, hblank]
    · exact ⟨l ++ [c], [], by simp, by simp, .inr ⟨c, List.getLast?_concat .., hend⟩⟩

end

/-- A cell is read alike in two cuts that agree in what they ask about the code around it. -/
theorem advance_congr {code code' : Code} {rule rule' : AfterBlock.Rule}
    {stop stop' start start' pos pos' : Nat} {s : State} {c : Char}
    (hassign : c = '{' →
      (code.assignment? start pos).isSome = (code'.assignment? start' pos').isSome)
    (hrule : c = '}' → rule start (pos + 1) stop = rule' start' (pos' + 1) stop')
    (first : Option Nat) :
    advance code' rule' stop' start' { s with start := first } pos' c =
      (advance code rule stop start s pos c).map fun next => { next with start := some start' } := by
  simp only [advance]
  split
  · rfl
  · split
    · rfl
    · split
      · rename_i hc
        rw [hassign (beq_iff_eq.mp hc)]
        rfl
      · split
        · rename_i hc
          rw [hrule (beq_iff_eq.mp hc)]
          split
          · cases rule' start' (pos' + 1) stop' <;> rfl
          · rfl
        · split <;> rfl

/-- Two cuts of the same cells end the same segments if they agree in what they ask about the code
around them. -/
theorem endedFrom_congr {code code' : Code} {rule rule' : AfterBlock.Rule} {stop stop' : Nat}
    {s : State} {pos : Nat} {l : Code} (hs : ∀ start, s.start = some start → start ≤ pos)
    (hassign : ∀ start i, i < l.length → l[i]? = some '{' →
      (code.assignment? start (pos + i)).isSome = (code'.assignment? start (pos + i)).isSome)
    (hrule : ∀ start i, start ≤ pos + i → i < l.length → l[i]? = some '}' →
      rule start (pos + i + 1) stop = rule' start (pos + i + 1) stop') :
    endedFrom code rule stop s pos l = endedFrom code' rule' stop' s pos l := by
  induction l generalizing s pos with
  | nil => rfl
  | cons c l ih =>
    have hnext : ∀ s : State, (∀ start, s.start = some start → start ≤ pos + 1) →
        endedFrom code rule stop s (pos + 1) l = endedFrom code' rule' stop' s (pos + 1) l := by
      intro s hs
      refine ih hs (fun start i hi hc => ?_) fun start i hle hi hc => ?_
      · have := hassign start (i + 1) (Nat.succ_lt_succ hi) hc
        rwa [Nat.add_comm i, ← Nat.add_assoc] at this
      · have := hrule start (i + 1) (by omega) (Nat.succ_lt_succ hi) hc
        rwa [Nat.add_comm i, ← Nat.add_assoc] at this
    have hbegun : s.start.getD pos ≤ pos := by
      cases h : s.start with
      | none => exact Nat.le_refl pos
      | some start => exact hs start h
    have hstep : advance code' rule' stop' (s.start.getD pos) s pos c =
        advance code rule stop (s.start.getD pos) s pos c := by
      have := @advance_congr code code' rule rule' stop stop' (s.start.getD pos) (s.start.getD pos)
        pos pos s c (fun hc => hassign _ 0 (Nat.succ_pos _) (by rw [hc]; rfl))
        (fun hc => hrule _ 0 hbegun (Nat.succ_pos _) (by rw [hc]; rfl)) s.start
      rw [this]
      cases hadvance : advance code rule stop (s.start.getD pos) s pos c with
      | none => rfl
      | some next =>
        have hkeep := start_of_advance_eq_some hadvance
        rw [Option.map_some, ← hkeep]
    rw [endedFrom, endedFrom]
    simp only [hstep]
    split
    · exact hnext s fun start hstart => Nat.le_succ_of_le (hs start hstart)
    · cases hadvance : advance code rule stop (s.start.getD pos) s pos c with
      | none => simp only [hnext {} (by simp)]
      | some next =>
        refine hnext next fun start hstart => ?_
        rw [start_of_advance_eq_some hadvance] at hstart
        exact Option.some.inj hstart ▸ Nat.le_succ_of_le hbegun

/-- A cut ends the same segments wherever its cells stand. -/
theorem endedFrom_shift {code part : Code} {rule rule' : AfterBlock.Rule} {n stop : Nat}
    (h : code.Shows n part) (hstop : stop ≤ part.length)
    (hrule : ∀ start after, start < after → after ≤ stop → part[after - 1]? = some '}' →
      rule (n + start) (n + after) (n + stop) = rule' start after stop) {s : State} {pos : Nat}
    {cells : Code} (hstart : ∀ start, s.start = some start → start ≤ pos)
    (hshows : part.Shows pos cells) (hcells : pos + cells.length ≤ stop) :
    endedFrom code rule (n + stop) (s.shift n) (n + pos) cells =
      ((endedFrom part rule' stop s pos cells).1.map (Range.shift n),
        (endedFrom part rule' stop s pos cells).2.shift n) := by
  induction cells generalizing s pos with
  | nil => rfl
  | cons c cells ih =>
    rw [List.length_cons] at hcells
    have hc : part[pos]? = some c := by
      have := hshows.getElem? (i := 0) (by simp)
      simpa using this
    have hrest : part.Shows (pos + 1) cells := by
      have hsplit : part.Shows pos ([c] ++ cells) := hshows
      exact hsplit.append_right
    have hnext : ∀ {s : State}, (∀ start, s.start = some start → start ≤ pos + 1) →
        endedFrom code rule (n + stop) (s.shift n) (n + pos + 1) cells =
          ((endedFrom part rule' stop s (pos + 1) cells).1.map (Range.shift n),
            (endedFrom part rule' stop s (pos + 1) cells).2.shift n) :=
      fun hstart => ih hstart hrest (by omega)
    have hbegun : s.start.getD pos ≤ pos := by
      cases hs : s.start with
      | none => exact Nat.le_refl pos
      | some start => exact hstart start hs
    have hget : (s.shift n).start.getD (n + pos) = n + s.start.getD pos := by
      cases hs : s.start <;> simp [State.shift, hs]
    have hnone : (s.shift n).start.isNone = s.start.isNone := by simp [State.shift]
    rw [endedFrom, endedFrom]
    simp only [hget, hnone, advance_shift h hstop hrule hbegun (show pos < stop by omega) hc]
    split
    · exact hnext fun start hs => Nat.le_succ_of_le (hstart start hs)
    · cases hadvance : advance part rule' stop (s.start.getD pos) s pos c with
      | none =>
        have hclear : ({} : State).shift n = {} := rfl
        have := hnext (s := {}) (by simp)
        rw [hclear] at this
        simp only [Option.map_none, this, List.map_cons]
        rfl
      | some next =>
        refine hnext fun start hs => ?_
        rw [start_of_advance_eq_some hadvance] at hs
        exact Option.some.inj hs ▸ Nat.le_succ_of_le hbegun

section

variable {a r : Code} {rule rule' : AfterBlock.Rule} {start stop : Nat} (hstart : start ≤ a.length)
  (hrule : ∀ s after, s < after → start < after → after ≤ a.length → a[after - 1]? = some '}' →
    rule s after stop = rule' s after a.length)
include hstart hrule

/-- The same segments end in the code in front whatever follows, if the blocks there are judged
alike. -/
theorem endedFrom_left :
    endedFrom (a ++ r) rule stop {} start (a.drop start) =
      endedFrom a rule' a.length {} start (a.drop start) := by
  refine endedFrom_congr (by simp) (fun s i hi _ => ?_) fun s i hle hi hc => ?_
  · rw [List.length_drop] at hi
    have hshows : (a ++ r).Shows 0 a := List.prefix_append a r
    have := hshows.assignment?_of_lt (i := s) (show start + i < a.length by omega)
    simp only [Nat.zero_add] at this
    rw [this, Option.isSome_map]
  · rw [List.length_drop] at hi
    rw [List.getElem?_drop] at hc
    exact hrule s _ (by omega) (by omega) (by omega) (by rwa [Nat.add_sub_cancel])

/-- A cut is first that of the code in front. -/
theorem ranges_append (hle : a.length ≤ stop) :
    ranges (a ++ r) rule start stop =
      (endedFrom a rule' a.length {} start (a.drop start)).1 ++
        rangesFrom (a ++ r) rule stop (endedFrom a rule' a.length {} start (a.drop start)).2
          a.length (r.take (stop - a.length)) := by
  have hwindow : (a ++ r).window start stop = a.drop start ++ r.take (stop - a.length) := by
    rw [Code.window, List.drop_append_of_le_length hstart, List.take_append,
      List.take_of_length_le (by rw [List.length_drop]; omega), List.length_drop,
      show stop - start - (a.length - start) = stop - a.length by omega]
  rw [ranges, hwindow, rangesFrom_append, endedFrom_left hstart hrule, List.length_drop,
    show start + (a.length - start) = a.length by omega]

end

end Segment

namespace Code

/-- No segment is open at the end of the cells between two positions. -/
def Settled (code : Code) (rule : AfterBlock.Rule) (start stop : Nat) : Prop :=
  (Segment.endedFrom code rule stop {} start (code.window start stop)).2.start = none

instance (code : Code) (rule : AfterBlock.Rule) (start stop : Nat) :
    Decidable (code.Settled rule start stop) :=
  inferInstanceAs (Decidable (_ = none))

theorem Settled.eq {code : Code} {rule : AfterBlock.Rule} {start stop : Nat}
    (h : code.Settled rule start stop) :
    (Segment.endedFrom code rule stop {} start (code.window start stop)).2 = {} :=
  Segment.endedFrom_clear (fun _ => rfl) _ _ h

/-- Where no segment is open, each segment has ended. -/
theorem Settled.mem_endedFrom {code : Code} {rule : AfterBlock.Rule} {start stop : Nat}
    (h : code.Settled rule start stop) {r : Range} (hr : r ∈ Segment.ranges code rule start stop) :
    r ∈ (Segment.endedFrom code rule stop {} start (code.window start stop)).1 := by
  rw [Segment.ranges, ← List.append_nil (code.window ..), Segment.rangesFrom_append, h.eq,
    Segment.rangesFrom] at hr
  simpa using hr

/-- Where no segment is open, each segment ends with its terminator. -/
theorem Settled.end_of_mem {code : Code} {rule : AfterBlock.Rule} {start stop : Nat}
    (h : code.Settled rule start stop) {r : Range} (hr : r ∈ Segment.ranges code rule start stop) :
    r.start < r.stop ∧ (code[r.stop - 1]? = some ';' ∨ code[r.stop - 1]? = some '}') := by
  have hr := h.mem_endedFrom hr
  obtain ⟨hlt, -, -, hend⟩ := Segment.ends_of_mem_endedFrom (by simp)
    ⟨_, (List.take_append_drop ..).symm⟩ _ hr
  exact ⟨hlt, hend⟩

end Code

end ClassRefactor
