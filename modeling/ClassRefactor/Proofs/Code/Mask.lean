import ClassRefactor.Code.Mode
import ClassRefactor.Code.Scan
import ClassRefactor.Proofs.Text.Cut

/-!
# Masked text lies over its source

Masking keeps the size of every character, so offsets of the masked text are offsets of the source.
A cell that shows neither a blank nor a quote shows the source itself. A position between two
cells that differ, or beside a *solid* cell, is therefore a boundary of the source.
-/

namespace ClassRefactor

namespace Text

/-- What the cells of a character show once it is masked. -/
def maskCell (c : Char) : Mode → Char
  | .code => c
  | .comment => if c == '\n' then c else ' '
  | .literal => '"'

/-- A text under given modes. -/
def maskWith (t : Text) (modes : List Mode) : Text := (t.zipWith maskOne modes).flatten

theorem mask_eq_maskWith (t : Text) : mask t = maskWith t (modes t) := rfl

@[simp] theorem length_modes (t : Text) : (modes t).length = t.length :=
  Place.length_modes ..

theorem cells_replicate {d : Char} (hd : d.utf8Size = 1) (n : Nat) :
    cells (List.replicate n d) = List.replicate n d := by
  induction n with
  | zero => rfl
  | succ n ih => simp [List.replicate_succ, hd, ih]

/-- A character and its mask have the same cells but for what they show. -/
theorem cells_maskOne (c : Char) (mode : Mode) :
    cells (maskOne c mode) = List.replicate c.utf8Size (maskCell c mode) := by
  cases mode with
  | code => simp [maskOne, maskCell]
  | comment =>
    by_cases h : c = '\n'
    · simp [maskOne, maskCell, h]
    · simpa [maskOne, maskCell, h] using cells_replicate (by decide) c.utf8Size
  | literal => simpa [maskOne, maskCell] using cells_replicate (by decide) c.utf8Size

@[simp] theorem maskWith_nil (modes : List Mode) : maskWith [] modes = [] := by
  simp [maskWith]

@[simp] theorem maskWith_cons (c : Char) (t : Text) (mode : Mode) (modes : List Mode) :
    maskWith (c :: t) (mode :: modes) = maskOne c mode ++ maskWith t modes := by
  simp [maskWith]

theorem maskWith_append {s : Text} {modes : List Mode} (h : modes.length = s.length) (t : Text)
    (more : List Mode) :
    maskWith (s ++ t) (modes ++ more) = maskWith s modes ++ maskWith t more := by
  simp [maskWith, List.zipWith_append h.symm]

@[simp] theorem size_maskOne (c : Char) (mode : Mode) : size (maskOne c mode) = c.utf8Size := by
  rw [← length_cells, cells_maskOne]
  simp

theorem size_maskWith {t : Text} {modes : List Mode} (h : modes.length = t.length) :
    size (maskWith t modes) = size t := by
  induction t generalizing modes with
  | nil => simp
  | cons c t ih =>
    cases modes with
    | nil => simp at h
    | cons mode modes => simp [ih (by simpa using h)]

@[simp] theorem size_mask (t : Text) : size (mask t) = size t :=
  size_maskWith (length_modes t)

/-- The mask of a text in two parts is in two parts too. -/
theorem exists_mask_append (s t : Text) :
    ∃ ms mt, modes (s ++ t) = ms ++ mt ∧ ms.length = s.length ∧ mt.length = t.length ∧
      mask (s ++ t) = maskWith s ms ++ maskWith t mt := by
  have hsplit := List.take_append_drop s.length (modes (s ++ t))
  refine ⟨_, _, hsplit.symm, by simp, by simp, ?_⟩
  rw [← maskWith_append (by simp), hsplit, mask_eq_maskWith]

/-- A boundary of the source is a boundary of the masked text. -/
theorem isBoundary_mask {t : Text} {n : Nat} (h : isBoundary t n = true) :
    isBoundary (mask t) n = true := by
  obtain ⟨s, u, rfl, rfl⟩ := isBoundary_iff.mp h
  obtain ⟨ms, mu, -, hms, -, hmask⟩ := exists_mask_append s u
  rw [hmask, ← size_maskWith hms]
  exact isBoundary_iff.mpr ⟨_, _, rfl, rfl⟩

/-- Each cell of the masked text shows what its mode lets the source character show. -/
theorem getElem?_cells_mask (s : Text) (c : Char) (u : Text) :
    ∃ mode, (modes (s ++ c :: u))[s.length]? = some mode ∧ ∀ k, k < c.utf8Size →
      (cells (mask (s ++ c :: u)))[size s + k]? = some (maskCell c mode) := by
  obtain ⟨ms, mu, hmodes, hms, hmu, hmask⟩ := exists_mask_append s (c :: u)
  cases mu with
  | nil => simp at hmu
  | cons mode mu =>
    refine ⟨mode, by simp [hmodes, ← hms], fun k hk => ?_⟩
    rw [hmask, maskWith_cons, cells_append, ← size_maskWith hms, ← length_cells,
      List.getElem?_append_right (Nat.le_add_right ..), Nat.add_sub_cancel_left, cells_append,
      List.getElem?_append_left (by simpa using hk), cells_maskOne]
    simp [hk]

end Text

/-- A cell that stands for nothing but itself: within ASCII, and no mask of a longer character. -/
def isSolid (c : Char) : Bool := c.utf8Size == 1 && c != ' ' && c != '"'

/-- No cell of a character of several bytes is solid. -/
theorem Text.maskCell_not_solid {c : Char} (mode : Mode) (h : 1 < c.utf8Size) :
    isSolid (maskCell c mode) = false := by
  cases mode with
  | code =>
    have hne : (c.utf8Size == 1) = false := by
      rw [beq_eq_false_iff_ne]
      omega
    simp [maskCell, isSolid, hne]
  | comment =>
    have hne : c ≠ '\n' := by
      rintro rfl
      exact absurd h (by decide)
    simp [maskCell, hne, isSolid]
  | literal => simp [maskCell, isSolid]

/-- Every position of a text lies in one of its characters. -/
theorem Text.exists_char_at {t : Text} {n : Nat} (hn : n < size t) :
    ∃ s c u k, t = s ++ c :: u ∧ n = size s + k ∧ k < c.utf8Size := by
  cases hb : isBoundary t n with
  | false =>
    obtain ⟨s, c, u, k, hs, hk, -, hlt⟩ := exists_cells_of_not_isBoundary (Nat.le_of_lt hn) hb
    exact ⟨s, c, u, k, hs, hk, hlt⟩
  | true =>
    obtain ⟨s, u, rfl, rfl⟩ := isBoundary_iff.mp hb
    cases u with
    | nil => simp at hn
    | cons c u => exact ⟨s, c, u, 0, rfl, rfl, Char.utf8Size_pos c⟩

/-- A cell of the masked text that shows neither a blank nor a quote shows the source. -/
theorem Text.getElem?_cells_of_mask {t : Text} {n : Nat} {c : Char}
    (h : (cells (mask t))[n]? = some c) (hspace : c ≠ ' ') (hquote : c ≠ '"') :
    (cells t)[n]? = some c := by
  have hn : n < size t := by
    have := (List.getElem?_eq_some_iff.mp h).1
    simpa using this
  obtain ⟨s, d, u, k, rfl, rfl, hk⟩ := exists_char_at hn
  obtain ⟨mode, -, hmode⟩ := getElem?_cells_mask s d u
  rw [hmode k hk] at h
  obtain rfl := Option.some.inj h
  rw [getElem?_cells_append_cons s d u hk]
  cases mode with
  | code => rfl
  | comment =>
    by_cases hd : d = '\n'
    · simp [maskCell, hd]
    · simp [maskCell, hd] at hspace
  | literal => simp [maskCell] at hquote

namespace Code

/-- A position at which a range may end: if the cells on both sides are the same, they are solid. -/
def Seam (code : Code) (p : Nat) : Prop :=
  p ≤ code.length ∧
    (0 < p → ∀ c, code[p - 1]? = some c → code[p]? = some c → isSolid c = true)

theorem Seam.le {code : Code} {p : Nat} (h : Seam code p) : p ≤ code.length := h.1

end Code

/-- A seam of the masked text is a boundary of the source. -/
theorem Text.isBoundary_of_seam {t : Text} {p : Nat} (h : Code.Seam (cells (mask t)) p) :
    isBoundary t p = true := by
  obtain ⟨hle, hsame⟩ := h
  cases hb : isBoundary t p with
  | true => rfl
  | false =>
    obtain ⟨s, c, u, k, rfl, rfl, hk, hlt⟩ :=
      exists_cells_of_not_isBoundary (by simpa using hle) hb
    obtain ⟨mode, -, hmode⟩ := getElem?_cells_mask s c u
    have hprev : size s + k - 1 = size s + (k - 1) := by omega
    have hsolid := hsame (by omega) (maskCell c mode)
      (by rw [hprev]; exact hmode (k - 1) (by omega)) (hmode k hlt)
    rw [maskCell_not_solid mode (by omega)] at hsolid
    cases hsolid

end ClassRefactor
