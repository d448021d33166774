import Mathlib.Data.List.Chain
import ClassRefactor.Proofs.Code.Delimiter

/-!
# Cutting at top-level commas

The ranges between top-level commas take in all the code but these commas. Which commas those are is
said here by position: the depths before a position are counted from the start of the cut, and the
cell before a `<` is looked up in the code, though the cut itself looks at the current piece only.
The two agree because a piece begins at the start or behind a comma, and neither makes a `<` open a
list.
-/

namespace ClassRefactor.Code

/-- How many brackets of any kind are open before a position, counted from `start` on. A bracket
that closes none is passed over. -/
def bracketsBefore (code : Code) (start : Nat) : Nat → Nat
  | 0 => 0
  | pos + 1 =>
    if pos < start then 0
    else if code[pos]? ∈ [some '(', some '[', some '{'] then bracketsBefore code start pos + 1
    else if code[pos]? ∈ [some ')', some ']', some '}'] then bracketsBefore code start pos - 1
    else bracketsBefore code start pos

/-- How many type argument lists are open before a position, counted from `start` on. A `<` opens
one if it stands after `start`, directly behind an identifier cell; a `>` that closes none is passed
over. -/
def anglesBefore (code : Code) (start : Nat) : Nat → Nat
  | 0 => 0
  | pos + 1 =>
    if pos < start then 0
    else if code[pos]? = some '<' then
      if start < pos ∧ code[pos - 1]?.any isIdentCell then anglesBefore code start pos + 1
      else anglesBefore code start pos
    else if code[pos]? = some '>' then anglesBefore code start pos - 1
    else anglesBefore code start pos

/-- A comma outside all brackets and type argument lists that were opened since `start`. -/
structure TopComma (code : Code) (start pos : Nat) : Prop where
  comma : code[pos]? = some ','
  brackets : code.bracketsBefore start pos = 0
  angles : code.anglesBefore start pos = 0

/-- The ranges are what top-level commas leave of the code between two positions. -/
structure CutAtCommas (code : Code) (start stop : Nat) (rs : List Range) : Prop where
  ne_nil : rs ≠ []
  first : rs.head?.map Range.start = some start
  last : rs.getLast?.map Range.stop = some stop
  within : ∀ r ∈ rs, start ≤ r.start ∧ r.start ≤ r.stop ∧ r.stop ≤ stop
  /-- Each range but the last ends at a comma, and the next one begins behind it. -/
  between : rs.IsChain fun a b => code[a.stop]? = some ',' ∧ b.start = a.stop + 1
  /-- The commas left out are all the top-level commas, and no others. -/
  commas : ∀ p, p ∈ rs.dropLast.map Range.stop ↔ start ≤ p ∧ p < stop ∧ code.TopComma start p
  joined : [','].intercalate (rs.map fun r => code.window r.start r.stop) = code.window start stop

variable {code : Code}

theorem bracketsBefore_self (code : Code) (start : Nat) : code.bracketsBefore start start = 0 := by
  cases start with
  | zero => rfl
  | succ start => exact if_pos (Nat.lt_succ_self start)

theorem anglesBefore_self (code : Code) (start : Nat) : code.anglesBefore start start = 0 := by
  cases start with
  | zero => rfl
  | succ start => exact if_pos (Nat.lt_succ_self start)

section

variable {start pos : Nat} {c : Char} (hle : start ≤ pos) (hc : code[pos]? = some c)
include hle hc

theorem bracketsBefore_succ :
    code.bracketsBefore start (pos + 1) = bracketDepth (code.bracketsBefore start pos) c := by
  simp [bracketsBefore, bracketDepth, hc, Nat.not_lt.mpr hle, or_assoc]

theorem anglesBefore_succ {previous : Option Char}
    (hprevious : previous.any isIdentCell = true ↔
      start < pos ∧ code[pos - 1]?.any isIdentCell = true) :
    code.anglesBefore start (pos + 1) = angleDepth (code.anglesBefore start pos) previous c := by
  simp [anglesBefore, angleDepth, hc, Nat.not_lt.mpr hle, hprevious]

end

/-- A top-level comma from a position on is there or behind it. -/
theorem topComma_from_iff {start stop pos p : Nat} (hlt : pos < stop) :
    pos ≤ p ∧ p < stop ∧ code.TopComma start p ↔
      p = pos ∧ code.TopComma start pos ∨ pos + 1 ≤ p ∧ p < stop ∧ code.TopComma start p := by
  constructor
  · rintro ⟨hle, hbound, htop⟩
    rcases Nat.eq_or_lt_of_le hle with rfl | hlater
    · exact .inl ⟨rfl, htop⟩
    · exact .inr ⟨hlater, hbound, htop⟩
  · rintro (⟨rfl, htop⟩ | ⟨hlater, hbound, htop⟩)
    · exact ⟨Nat.le_refl _, hlt, htop⟩
    · exact ⟨Nat.le_of_succ_le hlater, hbound, htop⟩

/-- Where a cut that has come to `pos`, with `piece` behind it, ends its pieces but the last. -/
theorem mem_stops_iff {start stop first pos : Nat} {piece cells : Code}
    (hstop : stop ≤ code.length) (hstart : start ≤ pos) (hfirst : first + piece.length = pos)
    (hcells : code.window pos stop = cells)
    (hprevious : piece.head?.any isIdentCell = true ↔
      start < pos ∧ code[pos - 1]?.any isIdentCell = true) (p : Nat) :
    p ∈ (spread first (commaPiecesFrom piece (code.bracketsBefore start pos)
        (code.anglesBefore start pos) cells)).dropLast.map Range.stop ↔
      pos ≤ p ∧ p < stop ∧ code.TopComma start p := by
  induction cells generalizing piece first pos with
  | nil =>
    have := window_eq_nil hcells hstop
    simp only [commaPiecesFrom, spread, List.dropLast_singleton, List.map_nil, List.not_mem_nil,
      false_iff]
    omega
  | cons c rest ih =>
    obtain ⟨hlt, hc, hrest⟩ := window_eq_cons hcells
    have hbrackets := bracketsBefore_succ hstart hc
    have hangles := anglesBefore_succ hstart hc hprevious
    have hnext : start ≤ pos + 1 := Nat.le_succ_of_le hstart
    rw [topComma_from_iff hlt]
    unfold commaPiecesFrom
    split
    · rename_i hcut
      simp only [Bool.and_eq_true, beq_iff_eq] at hcut
      obtain ⟨⟨rfl, hb⟩, ha⟩ := hcut
      have hhere : code.TopComma start pos := ⟨hc, hb, ha⟩
      have hempty : pos + 1 + ([] : Code).length = pos + 1 := rfl
      have hne : spread (pos + 1) (commaPiecesFrom [] 0 0 rest) ≠ [] :=
        (tiles_spread hstop hlt hempty hrest.symm).ne_nil
      -- A comma is no identifier cell, so the next piece begins as the cut does.
      have hlater := ih hnext hempty hrest.symm (by simp [hc, isIdentCell])
      rw [hbrackets, hangles, hb, ha] at hlater
      simp only [spread, List.length_reverse, hfirst]
      rw [List.dropLast_cons_of_ne_nil hne, List.map_cons, List.mem_cons]
      exact or_congr (by simp [hhere]) hlater
    · rename_i hcut
      have hhere : ¬code.TopComma start pos := by
        rintro ⟨hcomma, hb, ha⟩
        rw [hc] at hcomma
        simp [Option.some.inj hcomma, hb, ha] at hcut
      have hlonger : first + (c :: piece).length = pos + 1 := by
        rw [List.length_cons]
        omega
      rw [← hbrackets, ← hangles, ih hnext hlonger hrest.symm (by simp [hc]; omega)]
      simp [hhere]

namespace Tiles

variable {start stop : Nat} {rs : List Range}

theorem head?_start (h : Tiles code stop start rs) : rs.head?.map Range.start = some start := by
  cases h <;> rfl

theorem getLast?_stop (h : Tiles code stop start rs) : rs.getLast?.map Range.stop = some stop := by
  induction h with
  | last => rfl
  | more _ _ _ hrest ih => rw [List.getLast?_cons_of_ne_nil hrest.ne_nil, ih]

theorem isChain (h : Tiles code stop start rs) :
    rs.IsChain fun a b => code[a.stop]? = some ',' ∧ b.start = a.stop + 1 := by
  induction h with
  | last => exact .singleton _
  | more _ _ hcomma hrest ih =>
    cases hrest with
    | last => exact .cons_cons ⟨hcomma, rfl⟩ ih
    | more => exact .cons_cons ⟨hcomma, rfl⟩ ih

/-- The pieces with the commas between them are the code that was cut. -/
theorem intercalate_windows (h : Tiles code stop start rs) :
    [','].intercalate (rs.map fun r => code.window r.start r.stop) = code.window start stop := by
  induction h with
  | last => simp [List.intercalate]
  | @more start comma rest hle hlt hcomma hrest ih =>
    obtain ⟨r, rest, rfl⟩ := List.exists_cons_of_ne_nil hrest.ne_nil
    have hone : code.window comma (comma + 1) = [','] := by simp [window, List.take_one, hcomma]
    simp only [List.map_cons, List.intercalate, List.intersperse_cons_cons,
      List.flatten_cons] at ih ⊢
    rw [ih, ← hone, window_append_window (Nat.le_succ comma) hlt,
      window_append_window hle (Nat.le_of_lt hlt)]

end Tiles

/-- The comma-separated ranges between two positions are what the top-level commas leave of the
code: the first begins where the cut begins, the last ends where the cut ends, between neighbours
stands one comma, these commas are exactly those at which no bracket and no type argument list is
open, and no cell is lost or doubled. The code need not be balanced. -/
theorem commaRanges_cutAtCommas {start stop : Nat} (hle : start ≤ stop)
    (hstop : stop ≤ code.length) :
    code.CutAtCommas start stop (code.commaRanges start stop) := by
  have htiles := tiles_commaRanges hle hstop
  have hempty : start + ([] : Code).length = start := rfl
  have hstops := mem_stops_iff hstop (Nat.le_refl start) hempty rfl (by simp)
  rw [bracketsBefore_self, anglesBefore_self] at hstops
  exact ⟨htiles.ne_nil, htiles.head?_start, htiles.getLast?_stop, fun r hr => htiles.mem hr,
    htiles.isChain, hstops, htiles.intercalate_windows⟩

/-- Stray brackets, a comparison, and a `<` at which the cut begins. -/
theorem commaRanges_cutAtCommas_strayBrackets :
    1 ≤ 36 ∧ 36 ≤ "f<a, b), List<c, d>, e < g, (h, [i, j".toList.length ∧
      CutAtCommas "f<a, b), List<c, d>, e < g, (h, [i, j".toList 1 36
        [⟨1, 3⟩, ⟨4, 7⟩, ⟨8, 19⟩, ⟨20, 26⟩, ⟨27, 36⟩] := by
  have hle : 1 ≤ 36 := by decide
  have hlength : 36 ≤ "f<a, b), List<c, d>, e < g, (h, [i, j".toList.length := by decide
  have hranges : commaRanges "f<a, b), List<c, d>, e < g, (h, [i, j".toList 1 36 =
      [⟨1, 3⟩, ⟨4, 7⟩, ⟨8, 19⟩, ⟨20, 26⟩, ⟨27, 36⟩] := by decide
  have hcut := commaRanges_cutAtCommas hle hlength
  rw [hranges] at hcut
  exact ⟨hle, hlength, hcut⟩

/-! Cutting at commas in two steps. -/

/-- A cut at commas that has come to a position goes on behind it in the same way whatever stands
there. -/
theorem commaPiecesFrom_seam {code piece cells : Code} {start stop pos : Nat}
    (hstop : stop ≤ code.length) (hstart : start ≤ pos) (hle : pos ≤ stop)
    (hcells : code.window pos stop = cells)
    (hprevious : piece.head?.any isIdentCell = true ↔
      start < pos ∧ code[pos - 1]?.any isIdentCell = true) :
    ∃ (init : List Code) (last : Code), ∀ r,
      commaPiecesFrom piece (code.bracketsBefore start pos) (code.anglesBefore start pos)
          (cells ++ r) =
        init ++ commaPiecesFrom last (code.bracketsBefore start stop)
          (code.anglesBefore start stop) r := by
  induction cells generalizing piece pos with
  | nil =>
    obtain rfl : pos = stop := Nat.le_antisymm hle (window_eq_nil hcells hstop)
    exact ⟨[], piece, fun r => rfl⟩
  | cons c rest ih =>
    obtain ⟨hlt, hc, hrest⟩ := window_eq_cons hcells
    have hbrackets := bracketsBefore_succ hstart hc
    have hangles := anglesBefore_succ hstart hc hprevious
    have hnext : start ≤ pos + 1 := Nat.le_succ_of_le hstart
    cases hcut : c == ',' && code.bracketsBefore start pos == 0 &&
        code.anglesBefore start pos == 0 with
    | true =>
      have hzero := hcut
      simp only [Bool.and_eq_true, beq_iff_eq] at hzero
      obtain ⟨⟨rfl, hb⟩, ha⟩ := hzero
      -- A comma is no identifier cell, so the next piece begins as the cut does.
      have hempty : ([] : Code).head?.any isIdentCell = true ↔
          start < pos + 1 ∧ code[pos + 1 - 1]?.any isIdentCell = true := by simp [hc, isIdentCell]
      obtain ⟨init, last, h⟩ := ih hnext hlt hrest.symm hempty
      refine ⟨piece.reverse :: init, last, fun r => ?_⟩
      have hr := h r
      rw [hbrackets, hangles, hb, ha] at hr
      rw [List.cons_append, commaPiecesFrom, hcut, if_pos rfl, List.cons_append]
      congr 1
    | false =>
      have hlonger : (c :: piece).head?.any isIdentCell = true ↔
          start < pos + 1 ∧ code[pos + 1 - 1]?.any isIdentCell = true := by
        simp [hc]
        omega
      obtain ⟨init, last, h⟩ := ih hnext hlt hrest.symm hlonger
      refine ⟨init, last, fun r => ?_⟩
      rw [List.cons_append, commaPiecesFrom, hcut, ← hbrackets, ← hangles]
      exact h r

/-- The pieces and the commas between them are all the cells. -/
theorem length_commaPiecesFrom (piece : Code) (brackets angles : Nat) (cells : Code) :
    (commaPiecesFrom piece brackets angles cells).flatten.length +
        (commaPiecesFrom piece brackets angles cells).length =
      piece.length + cells.length + 1 := by
  induction cells generalizing piece brackets angles with
  | nil => simp [commaPiecesFrom]
  | cons c rest ih =>
    unfold commaPiecesFrom
    split
    · have hrest := @ih [] 0 0
      simp only [List.length_nil] at hrest
      simp only [List.flatten_cons, List.length_append, List.length_cons, List.length_reverse]
      omega
    · rw [ih, List.length_cons, List.length_cons]
      omega

theorem spread_append (start : Nat) (ps qs : List Code) :
    spread start (ps ++ qs) =
      spread start ps ++ spread (start + (ps.flatten.length + ps.length)) qs := by
  induction ps generalizing start with
  | nil => rfl
  | cons p ps ih =>
    simp only [List.cons_append, spread, ih, List.flatten_cons, List.length_append,
      List.length_cons]
    congr 3
    omega

end ClassRefactor.Code
