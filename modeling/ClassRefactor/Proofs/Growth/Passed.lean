import ClassRefactor.Proofs.Code.Spaced
import ClassRefactor.Proofs.Exchange.Class

/-!
# Code that searches pass over

What is put into a class, such as a constructor or statements, closes its delimiters, and no keyword
in it is followed by a name. So the searches that come from the code before it pass over it, and the
same keywords declare classes with it and without it.
-/

namespace ClassRefactor.Code

/-- Code that closes what it opens, so that searches come out of it at the depth at which they came
in. A search for the body of a class must come in within brackets. -/
structure Transparent (l : Code) : Prop where
  angles : ∀ depth rest, closeFrom '<' '>' depth (l ++ rest) =
    (closeFrom '<' '>' depth rest).map (l.length + ·)
  braces : ∀ depth rest, closeFrom '{' '}' depth (l ++ rest) =
    (closeFrom '{' '}' depth rest).map (l.length + ·)
  body : ∀ depth pos rest, classBodyFrom (depth + 1) pos (l ++ rest) =
    classBodyFrom (depth + 1) (pos + l.length) rest

namespace Transparent

variable {l r : Code}

theorem nil : Transparent [] := ⟨by simp, by simp, fun _ _ _ => rfl⟩

theorem append (hl : Transparent l) (hr : Transparent r) : Transparent (l ++ r) where
  angles depth rest := by
    rw [List.append_assoc, hl.angles, hr.angles, Option.map_map]
    congr 1
    funext n
    simp only [Function.comp, List.length_append, Nat.add_assoc]
  braces depth rest := by
    rw [List.append_assoc, hl.braces, hr.braces, Option.map_map]
    congr 1
    funext n
    simp only [Function.comp, List.length_append, Nat.add_assoc]
  body depth pos rest := by
    rw [List.append_assoc, hl.body, hr.body, List.length_append, Nat.add_assoc]

theorem of_stackAfter (h : stackAfter [] l = some []) : Transparent l where
  angles := closeFrom_nested h (.inr (.inr ⟨rfl, rfl⟩))
  braces := closeFrom_of_not_mem (not_mem_of_stackAfter h).1 (not_mem_of_stackAfter h).2.1
  body depth := classBodyFrom_nested h (depth + 1)

theorem of_isInert (h : ∀ c ∈ l, isInert c = true) : Transparent l :=
  of_stackAfter (stackAfter_of_isInert h [])

theorem of_blanks (h : ∀ c ∈ l, isLayoutBlank c = true) : Transparent l :=
  of_isInert fun c hc => isInert_of_isWhite (isWhite_of_isLayoutBlank (h c hc))

/-- A `;` or `=` is passed over within brackets. -/
theorem singleton {c : Char} (h : c = ';' ∨ c = '=') : Transparent [c] where
  angles := closeFrom_of_not_mem (by rcases h with rfl | rfl <;> decide)
    (by rcases h with rfl | rfl <;> decide)
  braces := closeFrom_of_not_mem (by rcases h with rfl | rfl <;> decide)
    (by rcases h with rfl | rfl <;> decide)
  body depth pos rest := by rcases h with rfl | rfl <;> simp [classBodyFrom]

/-- A block is passed over if what stands in it is. -/
theorem block (h : Transparent l) : Transparent ('{' :: (l ++ ['}'])) where
  angles depth rest := by
    have hclose : ∀ r, closeFrom '<' '>' depth ('}' :: r) =
        (closeFrom '<' '>' depth r).map (· + 1) :=
      fun r => closeFrom_other (by decide) (by decide) depth r
    rw [List.cons_append, closeFrom_other (by decide) (by decide), List.append_assoc, h.angles,
      List.singleton_append, hclose, Option.map_map, Option.map_map]
    congr 1
    funext n
    simp only [Function.comp, List.length_append, List.length_cons, List.length_nil]
    omega
  braces depth rest := by
    have hopen : ∀ r, closeFrom '{' '}' depth ('{' :: r) =
        (closeFrom '{' '}' (depth + 1) r).map (· + 1) := fun r => by rw [closeFrom.eq_def]; simp
    have hclose : ∀ r, closeFrom '{' '}' (depth + 1) ('}' :: r) =
        (closeFrom '{' '}' depth r).map (· + 1) := fun r => by rw [closeFrom.eq_def]; simp
    rw [List.cons_append, hopen, List.append_assoc, h.braces, List.singleton_append, hclose,
      Option.map_map, Option.map_map]
    congr 1
    funext n
    simp only [Function.comp, List.length_append, List.length_cons, List.length_nil]
    omega
  body depth pos rest := by
    have hlen : pos + ('{' :: (l ++ ['}'])).length = pos + 1 + l.length + 1 := by
      simp only [List.length_append, List.length_cons, List.length_nil]
      omega
    have hopen : ∀ r, classBodyFrom (depth + 1) pos ('{' :: r) =
        classBodyFrom (depth + 1) (pos + 1) r := fun r => by simp [classBodyFrom]
    have hclose : ∀ p r, classBodyFrom (depth + 1) p ('}' :: r) =
        classBodyFrom (depth + 1) (p + 1) r := fun p r => by simp [classBodyFrom]
    rw [List.cons_append, hopen, List.append_assoc, h.body, List.singleton_append, hclose, hlen]

end Transparent

/-! Keywords without a name. -/

/-- Code in which no name follows the keyword of a class: where the keyword stands, the first cell
behind it that is no blank is no cell of a name either. -/
def Mute (l : Code) : Prop :=
  ∀ p ∈ wordPositions "class".toList l, ∃ i d, p + "class".length ≤ i ∧ l[i]? = some d ∧
    isLayoutBlank d = false ∧ isIdentCell d = false ∧
    ∀ k, p + "class".length ≤ k → k < i → ∃ e, l[k]? = some e ∧ isLayoutBlank e = true

theorem class_ident : "class".toList ≠ [] ∧ ∀ d ∈ "class".toList, isIdentCell d = true := by decide

namespace Mute

variable {l r : Code}

theorem of_undeclared (h : Undeclared l) : Mute l := by
  intro p hp
  rw [h.wordPositions_class] at hp
  cases hp

theorem of_not_ident (h : ∀ c ∈ l, isIdentCell c = false) : Mute l :=
  of_undeclared (undeclared_of_not_ident h)

theorem of_blanks (h : ∀ c ∈ l, isLayoutBlank c = true) : Mute l :=
  of_not_ident fun c hc => Segment.isIdentCell_of_isLayoutBlank (h c hc)

theorem append (hapart : Apart l r) (hl : Mute l) (hr : Mute r) : Mute (l ++ r) := by
  intro p hp
  rw [wordPositions_append class_ident.1 class_ident.2 hapart, List.mem_append] at hp
  rcases hp with hp | hp
  · obtain ⟨i, d, hle, hd, hblank, hident, hbetween⟩ := hl p hp
    have hlt := (List.getElem?_eq_some_iff.mp hd).1
    refine ⟨i, d, hle, by rw [List.getElem?_append_left hlt, hd], hblank, hident,
      fun k hk hki => ?_⟩
    obtain ⟨e, he, hb⟩ := hbetween k hk hki
    exact ⟨e, by rw [List.getElem?_append_left (by omega), he], hb⟩
  · obtain ⟨q, hq, rfl⟩ := List.mem_map.mp hp
    obtain ⟨i, d, hle, hd, hblank, hident, hbetween⟩ := hr q hq
    have hright : ∀ k, (l ++ r)[l.length + k]? = r[k]? := fun k => by
      rw [List.getElem?_append_right (Nat.le_add_right ..), Nat.add_sub_cancel_left]
    refine ⟨l.length + i, d, by omega, by rw [hright, hd], hblank, hident, fun k hk hki => ?_⟩
    obtain ⟨e, he, hb⟩ := hbetween (k - l.length) (by omega) (by omega)
    exact ⟨e, by rw [← he, ← hright]; congr 1; omega, hb⟩

/-- A word and what follows it. -/
theorem word {w b : Code} {d : Char} (hw : ∀ c ∈ w, isIdentCell c = true)
    (hb : ∀ c ∈ b, isLayoutBlank c = true) (hblank : isLayoutBlank d = false)
    (hident : isIdentCell d = false) : Mute (w ++ (b ++ [d])) := by
  have hrest : ∀ c ∈ b ++ [d], isIdentCell c = false := by
    intro c hc
    rcases List.mem_append.mp hc with hc | hc
    · exact Segment.isIdentCell_of_isLayoutBlank (hb c hc)
    · rw [List.mem_singleton.mp hc, hident]
  have hapart : Apart w (b ++ [d]) := .inr fun c hc => hrest c (List.mem_of_mem_head? hc)
  intro p hp
  rw [wordPositions_append class_ident.1 class_ident.2 hapart,
    (undeclared_of_not_ident hrest).wordPositions_class, List.map_nil, List.append_nil] at hp
  have hcontains : containsWord "class".toList w = true := by
    rw [containsWord]
    cases h : wordPositions "class".toList w with
    | nil => rw [h] at hp; cases hp
    | cons => rfl
  have heq := eq_of_containsWord class_ident.1 class_ident.2 hw hcontains
  have hwhole := (mem_wordPositions_iff class_ident.1 class_ident.2).mp hp
  have hp0 : p = 0 := by
    have := hwhole.shows.length_le class_ident.1
    rw [heq] at this
    omega
  subst hp0
  have hlen : "class".length = w.length := by rw [heq]; rfl
  refine ⟨w.length + b.length, d, by omega, ?_, hblank, hident, fun k hk hki => ?_⟩
  · rw [List.getElem?_append_right (by omega), Nat.add_sub_cancel_left,
      List.getElem?_append_right (Nat.le_refl _), Nat.sub_self]
    rfl
  · have hlt : k - w.length < b.length := by omega
    refine ⟨b[k - w.length], ?_, hb _ (List.getElem_mem hlt)⟩
    rw [List.getElem?_append_right (by omega), List.getElem?_append_left hlt,
      List.getElem?_eq_getElem hlt]

/-- A keyword without a name declares nothing, wherever the code stands. -/
theorem silent (h : Mute l) (u r : Code) : Silent u l r := by
  intro p hp
  obtain ⟨i, d, hle, hd, hblank, hident, hbetween⟩ := h p hp
  have hlt := (List.getElem?_eq_some_iff.mp hd).1
  have hget : ∀ k < l.length, (u ++ l ++ r)[u.length + k]? = l[k]? := fun k hk => by
    rw [List.append_assoc, List.getElem?_append_right (Nat.le_add_right ..),
      Nat.add_sub_cancel_left, List.getElem?_append_left hk]
  generalize hcode : u ++ l ++ r = code at hget ⊢
  have hlength : u.length + l.length ≤ code.length := by
    rw [← hcode, List.length_append, List.length_append]
    omega
  have hd' : code[u.length + i]? = some d := (hget i hlt).trans hd
  have hstart : code.skipBlanks (u.length + p + "class".length) code.length = u.length + i := by
    obtain ⟨-, hblanks, hstop⟩ := run_spec isLayoutBlank
      (show u.length + p + "class".length ≤ code.length by omega) (Nat.le_refl _)
    rw [← skipBlanks] at hblanks hstop
    rcases Nat.lt_trichotomy (code.skipBlanks (u.length + p + "class".length) code.length)
      (u.length + i) with hbefore | heq | hbehind
    · obtain ⟨c, hc, hsolid⟩ := hstop (by omega)
      have hge : u.length + p + "class".length ≤
          code.skipBlanks (u.length + p + "class".length) code.length := Nat.le_add_right ..
      generalize code.skipBlanks (u.length + p + "class".length) code.length = v at *
      obtain ⟨e, he, hb⟩ := hbetween (v - u.length) (by omega) (by omega)
      rw [← hget _ (by omega), show u.length + (v - u.length) = v by omega, hc] at he
      rw [Option.some.inj he, hb] at hsolid
      cases hsolid
    · exact heq
    · obtain ⟨c, hc, hb⟩ := hblanks (u.length + i) (by omega) hbehind
      rw [Option.some.inj (hd'.symm.trans hc), hb] at hblank
      cases hblank
  have hempty : code.window (u.length + i) (code.identEnd (u.length + i) code.length) = [] := by
    obtain ⟨-, hidents, -⟩ := run_spec isIdentCell (show u.length + i ≤ code.length by omega)
      (Nat.le_refl _)
    rw [← identEnd] at hidents
    refine window_of_le (Nat.le_of_not_lt fun hgt => ?_)
    obtain ⟨c, hc, hc'⟩ := hidents (u.length + i) (Nat.le_refl _) hgt
    rw [Option.some.inj (hd'.symm.trans hc), hc'] at hident
    cases hident
  rw [classAt?, hstart, hempty]
  rfl

/-- Nothing in a first part declares a class, where a keyword at its end goes on without a name. -/
theorem silent_left (h : Mute (l ++ r)) (hapart : Apart l r) (u s : Code) :
    Silent u l (r ++ s) := by
  intro p hp
  have hmem : p ∈ wordPositions "class".toList (l ++ r) := by
    rw [wordPositions_append class_ident.1 class_ident.2 hapart]
    exact List.mem_append_left _ hp
  have hnone := h.silent u s p hmem
  rwa [← List.append_assoc u, List.append_assoc (u ++ l)] at hnone

end Mute

/-- A search for the body of a class that has come past a brace or a `;` is within brackets. -/
theorem EndsAt.depth_ne_zero {a : Code} {n p : Nat} (ha : a.EndsAt n) (hn : a[n]? ≠ some ']')
    (hp : p ≤ n) {depth : Nat}
    (hgoes : ∀ r, classBodyFrom 0 p (a.drop p ++ r) = classBodyFrom depth a.length r) :
    depth ≠ 0 := by
  rintro rfl
  obtain ⟨c, hc, hend⟩ := ha.ended
  have hlt := ha.lt
  have hsplit : a.drop p = (a.take n).drop p ++ (c :: a.drop (n + 1)) := by
    have hdrop : a.drop n = c :: a.drop (n + 1) := by
      rw [List.drop_eq_getElem_cons hlt, (List.getElem?_eq_some_iff.mp hc).2]
    rw [← hdrop, ← List.drop_append_of_le_length (by rw [List.length_take]; omega),
      List.take_append_drop]
  have hlen : p + ((a.take n).drop p).length = n := by
    rw [List.length_drop, List.length_take]
    omega
  -- A brace behind the code would open the body, and a `;` there would rule it out.
  have hbrace := hgoes ['{']
  have hsemicolon := hgoes [';']
  simp only [classBodyFrom] at hbrace hsemicolon
  rw [hsplit, List.append_assoc] at hbrace hsemicolon
  rcases classBodyFrom_append_cases 0 p ((a.take n).drop p) with ⟨answer, -, hfound⟩ | ⟨d, hpass⟩
  · rw [hfound] at hbrace hsemicolon
    rw [hbrace] at hsemicolon
    simp at hsemicolon
  · rw [hpass, hlen] at hbrace hsemicolon
    cases d with
    | zero =>
      have hblanks := (Transparent.of_blanks ha.blanks).body 0 (n + 1) ['{']
      simp only [isEnd, Bool.or_eq_true, beq_iff_eq] at hend
      rcases hend with (((rfl | rfl) | rfl) | rfl) | rfl
      · simp [classBodyFrom] at hbrace hsemicolon
      · simp [classBodyFrom] at hbrace hsemicolon
      · simp [classBodyFrom] at hbrace hsemicolon
      · exact hn hc
      · simp [classBodyFrom, hblanks] at hbrace
    | succ d =>
      have hblanks := (Transparent.of_blanks ha.blanks).body d (n + 1) ['{']
      simp only [isEnd, Bool.or_eq_true, beq_iff_eq] at hend
      have hpassed : classBodyFrom (d + 1) n (c :: (a.drop (n + 1) ++ ['{'])) = none := by
        rcases hend with (((rfl | rfl) | rfl) | rfl) | rfl
        · simpa [classBodyFrom] using hblanks
        · simpa [classBodyFrom] using hblanks
        · simpa [classBodyFrom] using hblanks
        · exact absurd hc hn
        · simpa [classBodyFrom] using (Transparent.of_blanks ha.blanks).body (d + 1) (n + 1) ['{']
      rw [List.cons_append, hpassed] at hbrace
      simp at hbrace

/-- Transparent code that stands behind a brace or a `;` is passed over. -/
theorem Transparent.passed {a l : Code} {n : Nat} (hl : Transparent l) (ha : a.EndsAt n)
    (hn : a[n]? ≠ some ']') : Passed a n l where
  angles := hl.angles
  braces := hl.braces
  body p hp depth hgoes r := by
    obtain ⟨depth, rfl⟩ := Nat.exists_eq_succ_of_ne_zero (ha.depth_ne_zero hn hp hgoes)
    exact hl.body depth a.length r

end ClassRefactor.Code
