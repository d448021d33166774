import ClassRefactor.Proofs.Code.Nest
import ClassRefactor.Proofs.Text.Cut

/-!
# Scanning cells for characters

A scan of the cells of a text finds what the same scan finds among its characters: the cells of one
character are all alike, and delimiters are characters of one cell.
-/

namespace ClassRefactor

theorem Code.leading_cons (p : Char → Bool) (c : Char) (rest : Code) :
    leading p (c :: rest) = if p c then leading p rest + 1 else 0 := by
  by_cases hc : p c <;> simp [leading, hc]

namespace Text

theorem exists_cells_cons (c : Char) (t : Text) :
    ∃ n, cells (c :: t) = c :: (List.replicate n c ++ cells t) ∧ c.utf8Size = n + 1 := by
  obtain ⟨n, hn⟩ : ∃ n, c.utf8Size = n + 1 :=
    ⟨c.utf8Size - 1, by have := Char.utf8Size_pos c; omega⟩
  exact ⟨n, by rw [cells_cons, hn, List.replicate_succ, List.cons_append], hn⟩

/-- The cell at the end of a text is the first of what follows it. -/
theorem getElem?_cells_append_size (s t : Text) : (cells (s ++ t))[size s]? = (cells t).head? := by
  rw [cells_append, ← length_cells, List.getElem?_append_right (Nat.le_refl _), Nat.sub_self,
    List.head?_eq_getElem?]

theorem isEmpty_eq (t : Text) : t.isEmpty = (size t == 0) := by
  cases t with
  | nil => rfl
  | cons c t =>
    have hpos := Char.utf8Size_pos c
    have hne : size (c :: t) ≠ 0 := by
      rw [size_cons]
      omega
    rw [beq_eq_false_iff_ne.mpr hne]
    rfl

theorem cells_reverse (t : Text) : cells t.reverse = (cells t).reverse := by
  induction t with
  | nil => rfl
  | cons c t ih =>
    rw [List.reverse_cons, cells_append, ih, cells_cons, cells_cons, List.reverse_append,
      List.reverse_replicate]
    simp [cells]

theorem head?_cells (t : Text) : (cells t).head? = t.head? := by
  cases t with
  | nil => rfl
  | cons c t =>
    obtain ⟨n, hcells, -⟩ := exists_cells_cons c t
    rw [hcells]
    rfl

theorem getLast?_cells (t : Text) : (cells t).getLast? = t.getLast? := by
  rw [← List.head?_reverse, ← cells_reverse, head?_cells, List.head?_reverse]

theorem cells_dropWhile (p : Char → Bool) (t : Text) :
    cells (t.dropWhile p) = (cells t).dropWhile p := by
  induction t with
  | nil => rfl
  | cons c t ih =>
    by_cases hc : p c = true
    · rw [List.dropWhile_cons_of_pos hc, ih, cells_cons,
        List.dropWhile_append_of_pos fun d hd => by rw [(List.mem_replicate.mp hd).2, hc]]
    · obtain ⟨n, hcells, -⟩ := exists_cells_cons c t
      rw [List.dropWhile_cons_of_neg hc, hcells, List.dropWhile_cons_of_neg hc]

theorem leading_cells (p : Char → Bool) (t : Text) :
    Code.leading p (cells t) = size (t.takeWhile p) := by
  induction t with
  | nil => rfl
  | cons c t ih =>
    by_cases hc : p c = true
    · have hrun : (List.replicate c.utf8Size c ++ cells t).takeWhile p =
          List.replicate c.utf8Size c ++ (cells t).takeWhile p :=
        List.takeWhile_append_of_pos fun d hd => by rw [(List.mem_replicate.mp hd).2, hc]
      rw [List.takeWhile_cons_of_pos hc, size_cons, ← ih, cells_cons, Code.leading, hrun,
        List.length_append, List.length_replicate, Code.leading]
    · obtain ⟨n, hcells, -⟩ := exists_cells_cons c t
      rw [List.takeWhile_cons_of_neg hc, hcells, Code.leading_cons, if_neg hc]
      rfl

theorem size_trimStart (t : Text) : size t.trimStart = size t - Code.leading isWhite (cells t) := by
  have hsplit := congrArg size (List.takeWhile_append_dropWhile (p := isWhite) (l := t))
  rw [size_append] at hsplit
  rw [leading_cells, trimStart]
  omega

theorem size_trimEnd (t : Text) : size t.trimEnd = size t - Code.trailing isWhite (cells t) := by
  rw [trimEnd, size_reverse, ← trimStart, size_trimStart, size_reverse, cells_reverse,
    Code.trailing]

end Text

namespace Code

/-- A closing delimiter is as far away in the cells as the characters before it are long. -/
theorem closeFrom_cells {opening closing : Char} (hopen : opening.utf8Size = 1)
    (hclose : closing.utf8Size = 1) (depth : Nat) (t : Text) :
    closeFrom opening closing depth t.cells =
      (closeFrom opening closing depth t).map fun n => Text.size (t.take n) := by
  induction t generalizing depth with
  | nil => rfl
  | cons c t ih =>
    have step : ∀ d, (closeFrom opening closing d (Text.cells t)).map (c.utf8Size + ·) =
        ((closeFrom opening closing d t).map (· + 1)).map fun n => Text.size ((c :: t).take n) := by
      intro d
      rw [ih, Option.map_map, Option.map_map]
      rfl
    have single : c.utf8Size = 1 → Text.cells (c :: t) = c :: Text.cells t ∧
        (c.utf8Size + ·) = (· + 1) := by
      intro hc
      refine ⟨by simp [hc], ?_⟩
      funext n
      rw [hc, Nat.add_comm]
    by_cases ho : c = opening
    · obtain ⟨hcells, hone⟩ := single (ho ▸ hopen)
      have hopening : (c == opening) = true := beq_iff_eq.mpr ho
      rw [hone] at step
      simp only [hcells, closeFrom, hopening, if_true]
      exact step _
    · have hopening : (c == opening) = false := beq_eq_false_iff_ne.mpr ho
      by_cases hc : c = closing
      · obtain ⟨hcells, hone⟩ := single (hc ▸ hclose)
        have hclosing : (c == closing) = true := beq_iff_eq.mpr hc
        rw [hone] at step
        simp only [hcells, closeFrom, hopening, hclosing, if_true, Bool.false_eq_true, if_false]
        cases depth with
        | zero => rfl
        | succ depth => exact step depth
      · have hmem : ∀ d, d ≠ c → d ∉ List.replicate c.utf8Size c := by
          intro d hd hin
          exact hd (List.mem_replicate.mp hin).2
        rw [Text.cells_cons, closeFrom_of_not_mem (hmem _ (Ne.symm ho)) (hmem _ (Ne.symm hc)),
          List.length_replicate, step, closeFrom_other ho hc]

/-- The delimiters still to come after the cells of a text are those after its characters. -/
theorem stackAfter_cells (stack : List Char) (t : Text) :
    stackAfter stack t.cells = stackAfter stack t := by
  induction t generalizing stack with
  | nil => rfl
  | cons c t ih =>
    by_cases hc : c.utf8Size = 1
    · have hcells : Text.cells (c :: t) = c :: Text.cells t := by simp [hc]
      simp only [hcells, stackAfter, ih]
    · have hinert : isInert c = true := by
        simp only [isInert, Bool.and_eq_true, bne_iff_ne]
        refine ⟨⟨⟨⟨⟨⟨⟨⟨⟨?_, ?_⟩, ?_⟩, ?_⟩, ?_⟩, ?_⟩, ?_⟩, ?_⟩, ?_⟩, ?_⟩ <;> rintro rfl <;>
          exact hc (by decide)
      have hrun : stackAfter stack (List.replicate c.utf8Size c) = some stack :=
        stackAfter_of_isInert (fun d hd => by rw [(List.mem_replicate.mp hd).2, hinert]) stack
      rw [Text.cells_cons, stackAfter_append, hrun, Option.bind_some, ih,
        stackAfter_cons (push_of_isInert hinert stack)]

/-- A character of several bytes neither cuts nor nests. -/
theorem commaPiecesFrom_replicate {c : Char} (hc : c.utf8Size ≠ 1) (n : Nat) (piece rest : Code)
    (brackets angles : Nat) :
    commaPiecesFrom piece brackets angles (List.replicate n c ++ rest) =
      commaPiecesFrom (List.replicate n c ++ piece) brackets angles rest := by
  have hne : ∀ d : Char, d.utf8Size = 1 → (c == d) = false := by
    intro d hd
    rw [beq_eq_false_iff_ne]
    rintro rfl
    exact hc hd
  induction n generalizing piece with
  | zero => rfl
  | succ n ih =>
    have hcut : (c == ',') = false := hne _ (by decide)
    have hbracket : bracketDepth brackets c = brackets := by
      simp [bracketDepth, hne '(' (by decide), hne '[' (by decide), hne '{' (by decide),
        hne ')' (by decide), hne ']' (by decide), hne '}' (by decide)]
    have hangle : ∀ previous, angleDepth angles previous c = angles := by
      intro previous
      simp [angleDepth, hne '<' (by decide), hne '>' (by decide)]
    rw [List.replicate_succ, List.cons_append, commaPiecesFrom, hcut, hbracket, hangle]
    simp only [Bool.false_and, Bool.false_eq_true, if_false]
    rw [ih, List.append_cons, ← List.replicate_succ', List.replicate_succ]

theorem commaPiecesFrom_cells (piece t : Text) (brackets angles : Nat) :
    commaPiecesFrom piece.cells brackets angles t.cells =
      (commaPiecesFrom piece brackets angles t).map Text.cells := by
  induction t generalizing piece brackets angles with
  | nil =>
    have hnil : Text.cells [] = [] := rfl
    simp [commaPiecesFrom, hnil, Text.cells_reverse]
  | cons c t ih =>
    by_cases hc : c.utf8Size = 1
    · have hcells : Text.cells (c :: t) = c :: Text.cells t := by simp [hc]
      have hpiece : Text.cells (c :: piece) = c :: piece.cells := by simp [hc]
      rw [hcells, commaPiecesFrom, commaPiecesFrom, Text.head?_cells, ← hpiece]
      split
      · rw [List.map_cons, Text.cells_reverse]
        congr 1
        exact ih [] 0 0
      · exact ih (c :: piece) _ _
    · have hone : commaPiecesFrom piece brackets angles (c :: t) =
          commaPiecesFrom (c :: piece) brackets angles t :=
        commaPiecesFrom_replicate hc 1 piece t brackets angles
      rw [Text.cells_cons, commaPiecesFrom_replicate hc, hone]
      exact ih (c :: piece) brackets angles

theorem commaPieces_cells (t : Text) : commaPieces t.cells = (commaPieces t).map Text.cells :=
  commaPiecesFrom_cells [] t 0 0

/-- Pieces with commas between them make up the code that was cut. -/
theorem exists_commaPiecesFrom (piece code : Code) (brackets angles : Nat) :
    ∃ p ps, commaPiecesFrom piece brackets angles code = p :: ps ∧
      p ++ ps.flatMap (',' :: ·) = piece.reverse ++ code := by
  induction code generalizing piece brackets angles with
  | nil => exact ⟨piece.reverse, [], rfl, by simp⟩
  | cons c rest ih =>
    unfold commaPiecesFrom
    split
    · rename_i hcut
      obtain ⟨p, ps, hpieces, hjoin⟩ := ih [] 0 0
      have hcomma : c = ',' := by simp_all
      refine ⟨piece.reverse, p :: ps, by rw [hpieces], ?_⟩
      simpa [hcomma] using hjoin
    · obtain ⟨p, ps, hpieces, hjoin⟩ := ih (c :: piece) _ _
      exact ⟨p, ps, hpieces, by simpa using hjoin⟩

end Code

end ClassRefactor
