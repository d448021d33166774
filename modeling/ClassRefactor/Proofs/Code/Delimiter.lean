import ClassRefactor.Proofs.Code.Scan

/-!
# Delimiters, commas and assignments

What a search for a closing delimiter, a top-level comma or an assignment finds is a cell of that
kind between the ends of the search. Commas cut a stretch of code into pieces that leave out nothing
but the commas.
-/

namespace ClassRefactor.Code

variable {code : Code}

theorem closeFrom_spec {opening closing : Char} {depth n : Nat} {cells : Code}
    (h : closeFrom opening closing depth cells = some n) : cells[n]? = some closing := by
  induction cells generalizing depth n with
  | nil => simp [closeFrom] at h
  | cons c rest ih =>
    unfold closeFrom at h
    split at h
    · obtain ⟨m, hm, rfl⟩ := Option.map_eq_some_iff.mp h
      exact ih hm
    · split at h
      · rename_i hc
        cases depth with
        | zero =>
          obtain rfl := Option.some.inj h
          simpa using hc
        | succ depth =>
          obtain ⟨m, hm, rfl⟩ := Option.map_eq_some_iff.mp h
          exact ih hm
      · obtain ⟨m, hm, rfl⟩ := Option.map_eq_some_iff.mp h
        exact ih hm

/-- A matching delimiter stands after the opening one. -/
theorem matchingClose?_spec {opening closing : Char} {start close : Nat}
    (h : matchingClose? opening closing code start = some close) :
    code[start]? = some opening ∧ start < close ∧ code[close]? = some closing := by
  unfold matchingClose? at h
  split at h
  · simp at h
  · rename_i c rest hdrop
    have hget : ∀ i, code[start + i]? = (c :: rest)[i]? := by
      intro i
      rw [← hdrop, List.getElem?_drop]
    split at h
    · rename_i hc
      obtain ⟨n, hn, rfl⟩ := Option.map_eq_some_iff.mp h
      refine ⟨?_, by omega, ?_⟩
      · have := hget 0
        simp only [Nat.add_zero] at this
        rw [this]
        simpa using hc
      · rw [Nat.add_assoc, hget, Nat.add_comm 1 n, List.getElem?_cons_succ]
        exact closeFrom_spec hn
    · simp at h

/-- A match within the code before `stop`. -/
theorem matchingClose?_take_spec {opening closing : Char} {start stop close : Nat}
    (h : matchingClose? opening closing (code.take stop) start = some close) :
    code[start]? = some opening ∧ start < close ∧ close < stop ∧ code[close]? = some closing := by
  obtain ⟨hopen, hlt, hclose⟩ := matchingClose?_spec h
  have hstop : close < stop := by
    have := (List.getElem?_eq_some_iff.mp hclose).1
    simp only [List.length_take] at this
    omega
  rw [List.getElem?_take_of_lt (by omega)] at hopen hclose
  exact ⟨hopen, hlt, hstop, hclose⟩

/-- Ranges from `start` to `stop` with one comma between each two. -/
inductive Tiles (code : Code) (stop : Nat) : Nat → List Range → Prop
  | last {start : Nat} (h : start ≤ stop) : Tiles code stop start [⟨start, stop⟩]
  | more {start comma : Nat} {rest : List Range} (hle : start ≤ comma) (hlt : comma < stop)
      (hcomma : code[comma]? = some ',') (hrest : Tiles code stop (comma + 1) rest) :
      Tiles code stop start (⟨start, comma⟩ :: rest)

theorem tiles_spread {piece cells : Code} {brackets angles start pos stop : Nat}
    (hstop : stop ≤ code.length) (hpos : pos ≤ stop) (hstart : start + piece.length = pos)
    (hcells : code.window pos stop = cells) :
    Tiles code stop start (spread start (commaPiecesFrom piece brackets angles cells)) := by
  induction cells generalizing piece brackets angles start pos with
  | nil =>
    have hend : pos = stop := Nat.le_antisymm hpos (window_eq_nil hcells hstop)
    subst hend hstart
    simp only [commaPiecesFrom, spread, List.length_reverse]
    exact .last (Nat.le_add_right ..)
  | cons c rest ih =>
    obtain ⟨hlt, hc, hrest⟩ := window_eq_cons hcells
    unfold commaPiecesFrom
    split
    · rename_i hcomma
      have hcomma : c = ',' := by simp_all
      subst hcomma hstart
      simp only [spread, List.length_reverse]
      exact .more (Nat.le_add_right ..) hlt hc (ih hlt (by simp) hrest.symm)
    · exact ih hlt (by simp only [List.length_cons]; omega) hrest.symm

/-- The comma-separated pieces cover the code between two positions. -/
theorem tiles_commaRanges {start stop : Nat} (hle : start ≤ stop) (hstop : stop ≤ code.length) :
    Tiles code stop start (code.commaRanges start stop) :=
  tiles_spread hstop hle rfl rfl

namespace Tiles

variable {start stop : Nat} {rs : List Range}

theorem ne_nil (h : Tiles code stop start rs) : rs ≠ [] := by
  cases h <;> simp

theorem le (h : Tiles code stop start rs) : start ≤ stop := by
  cases h with
  | last h => exact h
  | more hle hlt => exact Nat.le_trans hle (Nat.le_of_lt hlt)

theorem mem (h : Tiles code stop start rs) {r : Range} (hr : r ∈ rs) :
    start ≤ r.start ∧ r.start ≤ r.stop ∧ r.stop ≤ stop := by
  induction h with
  | last h =>
    obtain rfl := List.mem_singleton.mp hr
    exact ⟨Nat.le_refl _, h, Nat.le_refl _⟩
  | more hle hlt _ _ ih =>
    rcases List.mem_cons.mp hr with rfl | hr
    · exact ⟨Nat.le_refl _, hle, Nat.le_of_lt hlt⟩
    · obtain ⟨h1, h2, h3⟩ := ih hr
      exact ⟨by omega, h2, h3⟩

theorem seam (h : Tiles code stop start rs) (hstart : Seam code start) (hstop : Seam code stop)
    {r : Range} (hr : r ∈ rs) : Seam code r.start ∧ Seam code r.stop := by
  induction h with
  | last h =>
    obtain rfl := List.mem_singleton.mp hr
    exact ⟨hstart, hstop⟩
  | more hle hlt hcomma hrest ih =>
    have hseam := seam_of_solid hcomma (by decide)
    rcases List.mem_cons.mp hr with rfl | hr
    · exact ⟨hstart, hseam.1⟩
    · exact ih hseam.2 hr

end Tiles

theorem assignFrom_spec {beyond : Option Char} {previous : Char} {depth n : Nat} {cells : Code}
    (h : assignFrom beyond previous depth cells = some n) : cells[n]? = some '=' := by
  induction cells generalizing previous depth n with
  | nil => simp [assignFrom] at h
  | cons c rest ih =>
    unfold assignFrom at h
    split at h
    · rename_i hc
      obtain rfl := Option.some.inj h
      simp_all
    · obtain ⟨m, hm, rfl⟩ := Option.map_eq_some_iff.mp h
      exact ih hm

/-- An assignment is an `=` between the ends of the search. -/
theorem assignment?_spec {start stop p : Nat} (h : code.assignment? start stop = some p) :
    start ≤ p ∧ p < stop ∧ code[p]? = some '=' := by
  obtain ⟨n, hn, rfl⟩ := Option.map_eq_some_iff.mp h
  have hget := assignFrom_spec hn
  rw [getElem?_window] at hget
  split at hget
  · exact ⟨by omega, by omega, hget⟩
  · cases hget

/-- Where the part before an assignment ends, if there is one. -/
theorem assignment?_getD_spec {start stop : Nat} (hle : start ≤ stop) (hstop : Seam code stop) :
    start ≤ (code.assignment? start stop).getD stop ∧
      (code.assignment? start stop).getD stop ≤ stop ∧
      Seam code ((code.assignment? start stop).getD stop) := by
  cases h : code.assignment? start stop with
  | none => exact ⟨hle, Nat.le_refl _, hstop⟩
  | some p =>
    obtain ⟨h1, h2, h3⟩ := assignment?_spec h
    exact ⟨h1, Nat.le_of_lt h2, (seam_of_solid h3 (by decide)).1⟩

end ClassRefactor.Code
