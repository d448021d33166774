import ClassRefactor.Text.Line

/-!
# Cutting texts at boundaries

A boundary of a text is the size of one of its initial segments, and cutting there loses nothing.
Between two neighbouring cells of different characters there always is a boundary, so a scan that
stops where the cells change never stops inside a character.
-/

namespace ClassRefactor.Text

@[simp] theorem size_reverse (t : Text) : size t.reverse = size t := by
  induction t with
  | nil => rfl
  | cons c t ih => simp [ih, Nat.add_comm]

@[simp] theorem cells_nil : cells [] = [] := rfl

@[simp] theorem cells_cons (c : Char) (t : Text) :
    cells (c :: t) = List.replicate c.utf8Size c ++ cells t := rfl

theorem before_append_size (s t : Text) (n : Nat) :
    before (s ++ t) (size s + n) = s ++ before t n := by
  induction s with
  | nil => simp
  | cons c s ih =>
    have hle : c.utf8Size ≤ c.utf8Size + size s + n := by omega
    have hsub : c.utf8Size + size s + n - c.utf8Size = size s + n := by omega
    simp [before, hle, hsub, ih]

theorem after_append_size (s t : Text) (n : Nat) :
    after (s ++ t) (size s + n) = after t n := by
  induction s with
  | nil => simp
  | cons c s ih =>
    have hle : c.utf8Size ≤ c.utf8Size + size s + n := by omega
    have hsub : c.utf8Size + size s + n - c.utf8Size = size s + n := by omega
    simp [after, hle, hsub, ih]

@[simp] theorem before_zero (t : Text) : before t 0 = [] := by
  cases t with
  | nil => rfl
  | cons c t => simp [before, Nat.not_le.mpr (Char.utf8Size_pos c)]

@[simp] theorem after_zero (t : Text) : after t 0 = t := by
  cases t with
  | nil => rfl
  | cons c t => simp [after, Nat.not_le.mpr (Char.utf8Size_pos c)]

@[simp] theorem before_append (s t : Text) : before (s ++ t) (size s) = s := by
  simpa using before_append_size s t 0

@[simp] theorem after_append (s t : Text) : after (s ++ t) (size s) = t := by
  simpa using after_append_size s t 0

/-- A text is split by the size of its first part. -/
theorem append_inj {a b c d : Text} (h : a ++ b = c ++ d) (hsize : size a = size c) :
    a = c ∧ b = d := by
  have hfront := congrArg (before · (size a)) h
  simp only [before_append] at hfront
  rw [hsize, before_append] at hfront
  exact ⟨hfront, List.append_cancel_left (hfront ▸ h)⟩

/-- A boundary is where some initial segment ends. -/
theorem isBoundary_iff {t : Text} {n : Nat} :
    isBoundary t n = true ↔ ∃ s u, t = s ++ u ∧ size s = n := by
  constructor
  · intro h
    exact ⟨before t n, after t n, (before_append_after t n).symm, by simpa [isBoundary] using h⟩
  · rintro ⟨s, u, rfl, rfl⟩
    simp [isBoundary]

@[simp] theorem isBoundary_zero (t : Text) : isBoundary t 0 = true :=
  isBoundary_iff.mpr ⟨[], t, rfl, rfl⟩

@[simp] theorem isBoundary_size (t : Text) : isBoundary t (size t) = true :=
  isBoundary_iff.mpr ⟨t, [], by simp, rfl⟩

theorem le_size_of_isBoundary {t : Text} {n : Nat} (h : isBoundary t n = true) : n ≤ size t := by
  obtain ⟨s, u, rfl, rfl⟩ := isBoundary_iff.mp h
  simp

theorem isBoundary_append_left {s : Text} {n : Nat} (h : isBoundary s n = true) (t : Text) :
    isBoundary (s ++ t) n = true := by
  obtain ⟨a, b, rfl, rfl⟩ := isBoundary_iff.mp h
  exact isBoundary_iff.mpr ⟨a, b ++ t, by simp, rfl⟩

/-- Boundaries of what follows a text are boundaries of the whole. -/
@[simp] theorem isBoundary_append_right (s t : Text) (n : Nat) :
    isBoundary (s ++ t) (size s + n) = isBoundary t n := by
  rw [Bool.eq_iff_iff]
  simp [isBoundary, before_append_size]

/-- A text falls into three parts at two boundaries. -/
theorem split_at_boundaries {t : Text} {i j : Nat} (hi : isBoundary t i = true)
    (hj : isBoundary t j = true) (hij : i ≤ j) :
    ∃ a b c, t = a ++ b ++ c ∧ size a = i ∧ size a + size b = j := by
  obtain ⟨a, u, rfl, rfl⟩ := isBoundary_iff.mp hi
  obtain ⟨d, rfl⟩ := Nat.exists_eq_add_of_le hij
  rw [isBoundary_append_right] at hj
  obtain ⟨b, c, rfl, rfl⟩ := isBoundary_iff.mp hj
  exact ⟨a, b, c, by simp, rfl, rfl⟩

@[simp] theorem slice_append (a b c : Text) :
    slice (a ++ b ++ c) (size a) (size a + size b) = b := by
  simp [slice]

/-- Two adjacent slices join. -/
theorem slice_append_slice {t : Text} {i j k : Nat} (hi : isBoundary t i = true)
    (hj : isBoundary t j = true) (hk : isBoundary t k = true) (hij : i ≤ j) (hjk : j ≤ k) :
    slice t i j ++ slice t j k = slice t i k := by
  obtain ⟨a, b, u, rfl, rfl, rfl⟩ := split_at_boundaries hi hj hij
  have hab : size a + size b = size (a ++ b) := by simp
  rw [hab] at hjk
  obtain ⟨d, rfl⟩ := Nat.exists_eq_add_of_le hjk
  rw [isBoundary_append_right] at hk
  obtain ⟨c, v, rfl, rfl⟩ := isBoundary_iff.mp hk
  have hfront : slice (a ++ b ++ (c ++ v)) (size a) (size a + size b) = b := slice_append ..
  have hback : slice (a ++ b ++ (c ++ v)) (size (a ++ b)) (size (a ++ b) + size c) = c := by
    rw [← List.append_assoc]
    exact slice_append ..
  have hwhole : slice (a ++ b ++ (c ++ v)) (size a) (size (a ++ b) + size c) = b ++ c := by
    have := slice_append a (b ++ c) v
    simpa [Nat.add_assoc] using this
  rw [hfront, hwhole]
  simp only [hab, hback]

@[simp] theorem slice_self (t : Text) (i : Nat) : slice t i i = [] := by
  simp [slice]

theorem before_append_slice {t : Text} {i j : Nat} (hi : isBoundary t i = true)
    (hj : isBoundary t j = true) (hij : i ≤ j) : before t i ++ slice t i j = before t j := by
  obtain ⟨a, b, c, rfl, rfl, rfl⟩ := split_at_boundaries hi hj hij
  have hsize : size a + size b = size (a ++ b) := by simp
  rw [slice_append, hsize, before_append, List.append_assoc, before_append]

theorem slice_append_after {t : Text} {i j : Nat} (hi : isBoundary t i = true)
    (hj : isBoundary t j = true) (hij : i ≤ j) : slice t i j ++ after t j = after t i := by
  obtain ⟨a, b, c, rfl, rfl, rfl⟩ := split_at_boundaries hi hj hij
  have hsize : size a + size b = size (a ++ b) := by simp
  rw [slice_append, hsize, after_append, List.append_assoc, after_append]

theorem cells_take_size (s t : Text) : (cells (s ++ t)).take (size s) = cells s := by
  rw [cells_append, ← length_cells s]
  exact List.take_left

theorem cells_drop_size (s t : Text) : (cells (s ++ t)).drop (size s) = cells t := by
  rw [cells_append, ← length_cells s]
  exact List.drop_left

/-- The cells of a slice stand in the cells of the text from its start on. -/
theorem cells_slice {t : Text} {i j : Nat} (hi : isBoundary t i = true)
    (hj : isBoundary t j = true) (hij : i ≤ j) :
    cells (slice t i j) = ((cells t).drop i).take (j - i) := by
  obtain ⟨a, b, c, rfl, rfl, rfl⟩ := split_at_boundaries hi hj hij
  rw [slice_append, List.append_assoc, cells_drop_size]
  simpa using (cells_take_size b c).symm

theorem mem_cells {c : Char} {t : Text} : c ∈ cells t ↔ c ∈ t := by
  have hpos := fun d : Char => Nat.ne_of_gt (Char.utf8Size_pos d)
  simp only [cells, List.mem_flatMap, List.mem_replicate]
  constructor
  · rintro ⟨d, hd, -, rfl⟩
    exact hd
  · intro h
    exact ⟨c, h, hpos c, rfl⟩

/-- Inside a character, the cells on both sides are that character. -/
theorem exists_cells_of_not_isBoundary {t : Text} {n : Nat} (hn : n ≤ size t)
    (h : isBoundary t n = false) :
    ∃ s c u k, t = s ++ c :: u ∧ n = size s + k ∧ 0 < k ∧ k < c.utf8Size := by
  induction t generalizing n with
  | nil =>
    have : n = 0 := by simpa using hn
    simp [this] at h
  | cons c t ih =>
    by_cases hc : c.utf8Size ≤ n
    · obtain ⟨m, rfl⟩ := Nat.exists_eq_add_of_le hc
      have hm : isBoundary t m = false := by
        rw [← isBoundary_append_right [c] t m]
        simpa using h
      obtain ⟨s, d, u, k, rfl, rfl, hk, hlt⟩ := ih (by simpa using hn) hm
      exact ⟨c :: s, d, u, k, rfl, by simp [Nat.add_assoc], hk, hlt⟩
    · have hpos : 0 < n := by
        rcases Nat.eq_zero_or_pos n with rfl | hpos
        · simp at h
        · exact hpos
      exact ⟨[], c, t, n, rfl, by simp, hpos, Nat.lt_of_not_le hc⟩

theorem getElem?_cells_append_cons (s : Text) (c : Char) (u : Text) {k : Nat}
    (hk : k < c.utf8Size) : (cells (s ++ c :: u))[size s + k]? = some c := by
  rw [cells_append, ← length_cells s, List.getElem?_append_right (Nat.le_add_right ..),
    Nat.add_sub_cancel_left, cells_cons, List.getElem?_append_left (by simpa using hk)]
  simp [hk]

/-- A cell within ASCII has a boundary on both sides. -/
theorem isBoundary_of_ascii_cell {t : Text} {n : Nat} {c : Char}
    (h : (cells t)[n]? = some c) (hc : c.utf8Size = 1) :
    isBoundary t n = true ∧ isBoundary t (n + 1) = true := by
  have hlt : n < size t := by
    have := (List.getElem?_eq_some_iff.mp h).1
    simpa using this
  have key : ∀ m, m ≤ size t → (m = n ∨ m = n + 1) → isBoundary t m = true := by
    intro m hm hmn
    cases hb : isBoundary t m with
    | true => rfl
    | false =>
      obtain ⟨s, d, u, k, rfl, rfl, hk, hlt⟩ := exists_cells_of_not_isBoundary hm hb
      have hleft : (cells (s ++ d :: u))[size s + (k - 1)]? = some d :=
        getElem?_cells_append_cons s d u (by omega)
      have hright := getElem?_cells_append_cons s d u hlt
      have hd : d = c := by
        rcases hmn with hmn | hmn
        · rw [← hmn, hright] at h
          exact Option.some.inj h
        · have : n = size s + (k - 1) := by omega
          rw [this, hleft] at h
          exact Option.some.inj h
      rw [hd, hc] at hlt
      omega
  exact ⟨key n (by omega) (.inl rfl), key (n + 1) (by omega) (.inr rfl)⟩

/-- A cell within ASCII is a character of its own. -/
theorem slice_ascii_cell {t : Text} {n : Nat} {c : Char} (h : (cells t)[n]? = some c)
    (hc : c.utf8Size = 1) : slice t n (n + 1) = [c] := by
  obtain ⟨s, u, rfl, rfl⟩ := isBoundary_iff.mp (isBoundary_of_ascii_cell h hc).1
  cases u with
  | nil => simp at h
  | cons d u =>
    have hd := getElem?_cells_append_cons s d u (Char.utf8Size_pos d)
    rw [Nat.add_zero, h] at hd
    obtain rfl := Option.some.inj hd
    have hsplit : s ++ c :: u = s ++ [c] ++ u := by simp
    have hone : size s + 1 = size s + size [c] := by simp [hc]
    rw [hsplit, hone, slice_append]

end ClassRefactor.Text
