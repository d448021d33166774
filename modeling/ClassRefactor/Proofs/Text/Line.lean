import ClassRefactor.Proofs.Code.Scan
import ClassRefactor.Proofs.Text.Cells
import ClassRefactor.Proofs.Text.Strip

/-!
# Lines and columns

The start of a line is a boundary of the text, and what precedes an offset that starts its line is
white. An offset lies in a line, and so many characters after the start of it. A line and a column
lead back to the offset, unless it stands among the carriage returns at the end of its line, where
no column points.

Both ways go over one picture of the text: whole lines, the part of a line before the offset, and
the rest.
-/

namespace ClassRefactor.Text

theorem lineStart_eq {t : Text} {offset : Nat} (h : offset ≤ size t) :
    lineStart t offset =
      offset - Code.trailing (· != '\n') (Code.window (cells t) 0 offset) := by
  have hlen : ((cells t).take offset).length = offset := by
    rw [List.length_take, length_cells]
    exact Nat.min_eq_left h
  simp only [lineStart, hlen]
  rfl

theorem lineStart_spec {t : Text} {offset : Nat} (h : offset ≤ size t) :
    lineStart t offset ≤ offset ∧
      (∀ i, lineStart t offset ≤ i → i < offset → (cells t)[i]? ≠ some '\n') ∧
      (0 < lineStart t offset → (cells t)[lineStart t offset - 1]? = some '\n') := by
  have hle : offset ≤ (cells t).length := by simpa using h
  obtain ⟨-, hin, hout⟩ := Code.runBack_spec (· != '\n') (Nat.zero_le offset) hle
  rw [← lineStart_eq h] at hin hout
  refine ⟨by rw [lineStart_eq h]; exact Nat.sub_le .., fun i hi hlt => ?_, fun hpos => ?_⟩
  · obtain ⟨c, hc, hne⟩ := hin i hi hlt
    rw [hc]
    simpa using hne
  · obtain ⟨c, hc, heq⟩ := hout hpos
    rw [hc]
    simpa using heq

/-- A line begins between two characters. -/
theorem isBoundary_lineStart {t : Text} {offset : Nat} (h : offset ≤ size t) :
    isBoundary t (lineStart t offset) = true := by
  obtain ⟨-, -, hprev⟩ := lineStart_spec h
  rcases Nat.eq_zero_or_pos (lineStart t offset) with hzero | hpos
  · rw [hzero, isBoundary_zero]
  · have := (isBoundary_of_ascii_cell (hprev hpos) (by decide)).2
    rwa [Nat.sub_add_cancel hpos] at this

/-- What precedes an offset that starts its line holds no character but blanks. -/
theorem blank_of_startsLine {t : Text} {offset i : Nat} {c : Char}
    (hline : startsLine t offset = true) (hi : lineStart t offset ≤ i) (hlt : i < offset)
    (hc : (cells t)[i]? = some c) : c = ' ' ∨ c = '\t' ∨ c = '\r' := by
  have hmem : c ∈ ((cells t).take offset).drop (lineStart t offset) := by
    rw [List.mem_iff_getElem?]
    refine ⟨i - lineStart t offset, ?_⟩
    rw [List.getElem?_drop, Nat.add_sub_cancel' hi, List.getElem?_take_of_lt hlt, hc]
  have := List.all_eq_true.mp hline c hmem
  simpa [or_assoc] using this

theorem strip_slice_lineStart {t : Text} {offset : Nat} (hb : isBoundary t offset = true)
    (hline : startsLine t offset = true) : strip (slice t (lineStart t offset) offset) = [] := by
  have hle := le_size_of_isBoundary hb
  obtain ⟨hstart, -, -⟩ := lineStart_spec hle
  rw [strip_eq_nil_iff]
  intro c hc
  rw [← mem_cells, cells_slice (isBoundary_lineStart hle) hb hstart] at hc
  obtain ⟨i, hi⟩ := List.mem_iff_getElem?.mp hc
  have hlt : i < offset - lineStart t offset := by
    have := (List.getElem?_eq_some_iff.mp hi).1
    simp only [List.length_take] at this
    omega
  rw [List.getElem?_take_of_lt hlt, List.getElem?_drop] at hi
  rcases blank_of_startsLine hline (Nat.le_add_right ..) (by omega) hi with rfl | rfl | rfl <;>
    decide

/-- A position before an offset that starts its line, and that holds no blank, is on an earlier
line. -/
theorem lt_lineStart {t : Text} {offset i : Nat} {c : Char} (hline : startsLine t offset = true)
    (hlt : i < offset) (hc : (cells t)[i]? = some c) (hne : c ≠ ' ' ∧ c ≠ '\t' ∧ c ≠ '\r') :
    i < lineStart t offset := by
  rcases Nat.lt_or_ge i (lineStart t offset) with h | h
  · exact h
  · rcases blank_of_startsLine hline h hlt hc with rfl | rfl | rfl <;> simp at hne

theorem content_lineIndent (t : Text) (offset : Nat) : content (lineIndent t offset) = [] := by
  rw [lineIndent, content_ofList, strip_eq_nil_iff]
  intro c hc
  have := List.all_eq_true.mp List.all_takeWhile c hc
  simp only [Bool.or_eq_true, beq_iff_eq] at this
  rcases this with rfl | rfl <;> decide

/-! Lines and columns. -/

/-- The line that holds an offset, without its line feed and the carriage returns before it. -/
def lineContent (t : Text) (offset : Nat) : Text := firstLine (after t (lineStart t offset))

/-- A text that ends where a line ends, or has no characters. -/
def WholeLines (s : Text) : Prop := ∀ c, s.getLast? = some c → c = '\n'

theorem wholeLines_nil : WholeLines [] := by simp [WholeLines]

theorem wholeLines_cons {c : Char} {s : Text} (hs : WholeLines s) (h : s = [] → c = '\n') :
    WholeLines (c :: s) := by
  intro d hd
  cases s with
  | nil => exact (Option.some.inj hd).symm.trans (h rfl)
  | cons e s => exact hs d (by rwa [List.getLast?_cons_cons] at hd)

theorem WholeLines.tail {c : Char} {s : Text} (h : WholeLines (c :: s)) : WholeLines s := by
  cases s with
  | nil => exact wholeLines_nil
  | cons d s => exact fun e he => h e (by rwa [List.getLast?_cons_cons])

theorem WholeLines.mem {s : Text} (h : WholeLines s) (hne : s ≠ []) : '\n' ∈ s := by
  rw [← h _ (List.getLast?_eq_some_getLast hne)]
  exact List.getLast_mem hne

/-- Every text is some whole lines and a part of a line. -/
theorem exists_wholeLines_append (t : Text) : ∃ s p, t = s ++ p ∧ WholeLines s ∧ '\n' ∉ p := by
  induction t with
  | nil => exact ⟨[], [], rfl, wholeLines_nil, List.not_mem_nil⟩
  | cons c t ih =>
    obtain ⟨s, p, rfl, hs, hp⟩ := ih
    by_cases h : s = [] ∧ c ≠ '\n'
    · obtain ⟨rfl, hc⟩ := h
      exact ⟨[], c :: p, rfl, wholeLines_nil, by simp [Ne.symm hc, hp]⟩
    · refine ⟨c :: s, p, rfl, wholeLines_cons hs fun hnil => ?_, hp⟩
      exact Decidable.not_not.mp fun hc => h ⟨hnil, hc⟩

theorem count_cells {c : Char} (hc : c.utf8Size = 1) (t : Text) :
    (cells t).count c = t.count c := by
  induction t with
  | nil => rfl
  | cons d t ih =>
    rw [cells_cons, List.count_append, ih, List.count_replicate, List.count_cons, Nat.add_comm]
    by_cases hd : d = c
    · simp [hd, hc]
    · simp [hd]

/-! Where an offset stands, if `s` are the lines before its own and `p` is what precedes it on its
own line. -/

section

variable {s p : Text} (hs : WholeLines s) (hp : '\n' ∉ p) (u : Text)

include hp in
theorem lineNumber_append : lineNumber (s ++ (p ++ u)) (size (s ++ p)) = s.count '\n' + 1 := by
  rw [lineNumber, ← List.append_assoc, cells_take_size, count_cells (by decide), List.count_append,
    List.count_eq_zero_of_not_mem hp, Nat.add_zero]

include hs hp in
theorem lineStart_append : lineStart (s ++ (p ++ u)) (size (s ++ p)) = size s := by
  have hpass : ∀ c ∈ (cells p).reverse, (c != '\n') = true := by
    intro c hc
    rw [List.mem_reverse, mem_cells] at hc
    rw [bne_iff_ne]
    rintro rfl
    exact hp hc
  have hstop : (cells s).reverse.takeWhile (· != '\n') = [] := by
    rw [← cells_reverse]
    cases hlast : s.reverse with
    | nil => rfl
    | cons c rest =>
      obtain rfl : c = '\n' := hs c (by rw [← List.head?_reverse, hlast, List.head?_cons])
      rfl
  rw [← List.append_assoc]
  simp only [lineStart, cells_take_size]
  rw [cells_append, List.reverse_append, List.takeWhile_append_of_pos hpass, hstop]
  simp

omit hs hp in
theorem cut?_line_append : cut? (s ++ (p ++ u)) (size s) (size (s ++ p)) = some p := by
  have hstart : isBoundary (s ++ (p ++ u)) (size s) = true := isBoundary_iff.mpr ⟨s, _, rfl, rfl⟩
  have hstop : isBoundary (s ++ (p ++ u)) (size (s ++ p)) = true :=
    isBoundary_iff.mpr ⟨s ++ p, u, by simp, rfl⟩
  rw [cut?, hstart, hstop, ← List.append_assoc, size_append, slice_append]
  rfl

end

/-- Dropping lines passes over just as many whole lines. -/
theorem dropLines?_eq_some_iff {t rest : Text} {n start : Nat} :
    dropLines? t n = some (start, rest) ↔
      ∃ s, t = s ++ rest ∧ size s = start ∧ s.count '\n' = n ∧ WholeLines s := by
  constructor
  · intro h
    induction t generalizing n start with
    | nil =>
      cases n with
      | zero =>
        cases h
        exact ⟨[], rfl, rfl, rfl, wholeLines_nil⟩
      | succ n => cases h
    | cons c t ih =>
      cases n with
      | zero =>
        cases h
        exact ⟨[], rfl, rfl, rfl, wholeLines_nil⟩
      | succ n =>
        rw [dropLines?, Option.map_eq_some_iff] at h
        obtain ⟨⟨start', rest'⟩, hdrop, heq⟩ := h
        cases heq
        obtain ⟨s, rfl, rfl, hcount, hs⟩ := ih hdrop
        refine ⟨c :: s, rfl, rfl, ?_, wholeLines_cons hs ?_⟩
        · rw [List.count_cons, hcount]
          split <;> simp_all
        · rintro rfl
          refine Decidable.not_not.mp fun hc => ?_
          simp [hc] at hcount
  · rintro ⟨s, rfl, rfl, rfl, hs⟩
    induction s with
    | nil => simp [dropLines?]
    | cons c s ih =>
      by_cases hc : c = '\n'
      · rw [hc, List.count_cons_self, List.cons_append, dropLines?, if_pos (by rfl), ih hs.tail]
        rfl
      · obtain ⟨n, hn⟩ : ∃ n, s.count '\n' = n + 1 := by
          refine ⟨s.count '\n' - 1, ?_⟩
          have hmem : '\n' ∈ s := by simpa [Ne.symm hc] using hs.mem (List.cons_ne_nil c s)
          have := List.count_pos_iff.mpr hmem
          omega
        have hpass : (c == '\n') = false := by simpa using hc
        rw [List.count_cons_of_ne hc, hn, List.cons_append, dropLines?, hpass]
        simp [← hn, ih hs.tail]

theorem prefix_firstLine (t : Text) : firstLine t <+: t := by
  have hback := (List.dropWhile_suffix (· == '\r') (l := (t.takeWhile (· != '\n')).reverse))
  have hline := List.reverse_prefix.mpr hback
  rw [List.reverse_reverse] at hline
  exact hline.trans (List.takeWhile_prefix _)

theorem not_mem_firstLine (t : Text) : '\n' ∉ firstLine t := by
  intro hmem
  rw [firstLine, List.mem_reverse] at hmem
  have hline := List.mem_reverse.mp ((List.dropWhile_sublist _).subset hmem)
  simpa using List.all_eq_true.mp List.all_takeWhile _ hline

/-- Of two beginnings of a text the one with fewer bytes is a beginning of the other. -/
theorem prefix_of_size_le {p q t : Text} (hp : p <+: t) (hq : q <+: t) (h : size p ≤ size q) :
    p <+: q := by
  rcases List.prefix_or_prefix_of_prefix hp hq with hpq | ⟨rest, rfl⟩
  · exact hpq
  · cases rest with
    | nil => simp
    | cons c rest =>
      have hpos := Char.utf8Size_pos c
      simp only [size_append, size_cons] at h
      omega

/-- A line and a column lead to an offset just in case the offset is a boundary of the text that
does not stand behind the content of its line, the line is its line, and the column is one more than
the number of characters that precede it there. So an offset is found from its own line and column,
and what is found has the line and the column that were given. -/
theorem offsetAt?_eq_some_iff (t : Text) (line column offset : Nat) :
    t.offsetAt? line column = some offset ↔
      offset ≤ t.size ∧ t.isBoundary offset = true ∧
        offset ≤ t.lineStart offset + (t.lineContent offset).size ∧
        t.lineNumber offset = line ∧
        (t.cut? (t.lineStart offset) offset).map (1 + ·.length) = some column := by
  constructor
  · intro h
    unfold offsetAt? at h
    split at h
    · cases h
    rename_i hpos
    obtain ⟨⟨start, rest⟩, hdrop, h⟩ := Option.bind_eq_some_iff.mp h
    obtain ⟨s, rfl, rfl, hcount, hs⟩ := dropLines?_eq_some_iff.mp hdrop
    simp only [Bool.or_eq_true, beq_iff_eq, not_or] at hpos
    simp only [Option.ite_none_right_eq_some, Option.some.injEq] at h
    obtain ⟨hle, rfl⟩ := h
    have htake := List.take_prefix (column - 1) (firstLine rest)
    have hlength : ((firstLine rest).take (column - 1)).length = column - 1 :=
      List.length_take_of_le hle
    have hnot : '\n' ∉ (firstLine rest).take (column - 1) := fun hmem =>
      not_mem_firstLine rest (List.mem_of_mem_take hmem)
    obtain ⟨u, hu⟩ := htake.trans (prefix_firstLine rest)
    generalize (firstLine rest).take (column - 1) = p at *
    subst hu
    have hsize : size p ≤ size (firstLine (p ++ u)) := by
      obtain ⟨v, hv⟩ := htake
      rw [← hv, size_append]
      exact Nat.le_add_right ..
    rw [← size_append]
    refine ⟨by simp, ?_, ?_, ?_, ?_⟩
    · exact isBoundary_iff.mpr ⟨s ++ p, u, by simp, rfl⟩
    · rw [lineContent, lineStart_append hs hnot, after_append, size_append]
      omega
    · rw [lineNumber_append hnot]
      omega
    · rw [lineStart_append hs hnot, cut?_line_append]
      simp only [Option.map_some, Option.some.injEq]
      omega
  · rintro ⟨-, hboundary, hcontent, rfl, hcolumn⟩
    obtain ⟨a, u, rfl, rfl⟩ := isBoundary_iff.mp hboundary
    obtain ⟨s, p, rfl, hs, hp⟩ := exists_wholeLines_append a
    rw [List.append_assoc] at *
    rw [lineContent, lineStart_append hs hp, after_append, size_append] at hcontent
    rw [lineStart_append hs hp, cut?_line_append] at hcolumn
    obtain rfl := Option.some.inj hcolumn
    have hinitial := prefix_of_size_le (List.prefix_append p u) (prefix_firstLine (p ++ u))
      (Nat.le_of_add_le_add_left hcontent)
    have hdrop : dropLines? (s ++ (p ++ u)) (s.count '\n') = some (size s, p ++ u) :=
      dropLines?_eq_some_iff.mpr ⟨s, rfl, rfl, rfl, hs⟩
    rw [lineNumber_append hp, offsetAt?, Nat.add_sub_cancel, Nat.add_sub_cancel_left, hdrop]
    simp [hinitial.length_le, ← List.prefix_iff_eq_take.mp hinitial]

/-- A column may point behind the content of its line, but not behind the carriage return there. -/
example : offsetAt? "aé\r\nb".toList 1 3 = some 3 ∧ offsetAt? "aé\r\nb".toList 1 4 = none ∧
    offsetAt? "aé\r\nb".toList 2 1 = some 5 := by decide

end ClassRefactor.Text
