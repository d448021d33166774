import ClassRefactor.Proofs.Layout.Named
import ClassRefactor.Proofs.Text.Cells

/-!
# Exchanging a lead

What stands before the name of a member may be exchanged for something else of the same form: all
its delimiters close, and it declares nothing. Scans of the code around it find the same, moved by
the difference of the two lengths where they stop behind it.
-/

namespace ClassRefactor.Code

/-- Code that may stand before the name of a member. -/
structure Lead (l : Code) : Prop where
  closed : stackAfter [] l = some []
  undeclared : Undeclared l
  head : ∃ c, l.head? = some c ∧ isLayoutBlank c = false ∧ c ≠ '=' ∧ c ≠ '['
  last : ∀ c, l.getLast? = some c → isNameCell c = false ∧ c ≠ '~'

/-- A cell after which a member, its lead or its first parameter may begin. -/
def isEnd (c : Char) : Bool := c == '{' || c == '}' || c == ';' || c == ']' || c == '('

/-- The last cell that is no blank stands at `n`, and something may begin after it. -/
structure EndsAt (code : Code) (n : Nat) : Prop where
  ended : ∃ c, code[n]? = some c ∧ isEnd c = true
  blanks : ∀ d ∈ code.drop (n + 1), isLayoutBlank d = true

/-- Code that the searches which come out of `a` pass over: its delimiters close, and a search for
the body of a class finds nothing in it. The last cell of `a` that is no blank stands at `n`. -/
structure Passed (a : Code) (n : Nat) (l : Code) : Prop where
  angles : ∀ depth rest, closeFrom '<' '>' depth (l ++ rest) =
    (closeFrom '<' '>' depth rest).map (l.length + ·)
  braces : ∀ depth rest, closeFrom '{' '}' depth (l ++ rest) =
    (closeFrom '{' '}' depth rest).map (l.length + ·)
  body : ∀ p ≤ n, ∀ depth,
    (∀ r, classBodyFrom 0 p (a.drop p ++ r) = classBodyFrom depth a.length r) →
    ∀ r, classBodyFrom depth a.length (l ++ r) = classBodyFrom depth (a.length + l.length) r

/-- No keyword in a part of some code declares a class. -/
def Silent (a l c : Code) : Prop :=
  ∀ p ∈ wordPositions "class".toList l, (a ++ l ++ c).classAt? (a.length + p) = none

theorem not_of_isEnd {c : Char} (h : isEnd c = true) :
    isLayoutBlank c = false ∧ isIdentCell c = false := by
  simp only [isEnd, Bool.or_eq_true, beq_iff_eq] at h
  rcases h with (((rfl | rfl) | rfl) | rfl) | rfl <;> decide

/-- Code that closes what it opens is passed over wherever it stands. -/
theorem passed_of_stackAfter {l : Code} (h : stackAfter [] l = some []) (a : Code) (n : Nat) :
    Passed a n l where
  angles := closeFrom_nested h (.inr (.inr ⟨rfl, rfl⟩))
  braces := closeFrom_of_not_mem (not_mem_of_stackAfter h).1 (not_mem_of_stackAfter h).2.1
  body _ _ depth _ := classBodyFrom_nested h depth a.length

section

variable {l : Code} (h : Lead l)
include h

theorem Lead.apart (r : Code) : Apart l r := by
  refine .inl fun c hc => ?_
  have := (h.last c hc).1
  simp only [isNameCell, Bool.or_eq_false_iff] at this
  exact this.1

theorem Lead.silent (a c : Code) : Silent a l c := by
  intro p hp
  rw [h.undeclared.wordPositions_class] at hp
  cases hp

end

/-! Scans that begin before a lead. -/

/-- A closing delimiter is found within some code, or its search goes on behind it. -/
theorem closeFrom_append_cases (opening closing : Char) (depth : Nat) (l : Code) :
    (∃ n < l.length, ∀ r, closeFrom opening closing depth (l ++ r) = some n) ∨
      ∃ depth', ∀ r, closeFrom opening closing depth (l ++ r) =
        (closeFrom opening closing depth' r).map (l.length + ·) := by
  induction l generalizing depth with
  | nil => exact .inr ⟨depth, by simp⟩
  | cons c l ih =>
    have hnext : ∀ {d : Nat}, (∀ r, closeFrom opening closing depth (c :: (l ++ r)) =
          (closeFrom opening closing d (l ++ r)).map (· + 1)) →
        (∃ n < (c :: l).length, ∀ r, closeFrom opening closing depth (c :: l ++ r) = some n) ∨
          ∃ depth', ∀ r, closeFrom opening closing depth (c :: l ++ r) =
            (closeFrom opening closing depth' r).map ((c :: l).length + ·) := by
      intro d hstep
      rcases ih d with ⟨n, hn, hfound⟩ | ⟨depth', hgoes⟩
      · exact .inl ⟨n + 1, Nat.succ_lt_succ hn, fun r => by
          rw [List.cons_append, hstep, hfound]; rfl⟩
      · exact .inr ⟨depth', fun r => by rw [List.cons_append, hstep, hgoes, map_length_cons]⟩
    by_cases hopen : c = opening
    · exact hnext (d := depth + 1) fun r => by rw [closeFrom.eq_def]; simp [hopen]
    · by_cases hclose : c = closing
      · cases depth with
        | zero =>
          refine .inl ⟨0, Nat.succ_pos _, fun r => ?_⟩
          have hne : ¬closing = opening := fun heq => hopen (hclose.trans heq)
          rw [List.cons_append, closeFrom.eq_def]
          simp [hclose, hne]
        | succ depth =>
          refine hnext (d := depth) fun r => ?_
          have hne : ¬closing = opening := fun heq => hopen (hclose.trans heq)
          rw [closeFrom.eq_def]
          simp [hclose, hne]
      · exact hnext (d := depth) fun r => closeFrom_other hopen hclose depth (l ++ r)

/-- The search for the body of a class ends within some code, or goes on behind it. -/
theorem classBodyFrom_append_cases (depth pos : Nat) (l : Code) :
    (∃ answer, (∀ p, answer = some p → p < pos + l.length) ∧
        ∀ r, classBodyFrom depth pos (l ++ r) = answer) ∨
      ∃ depth', ∀ r, classBodyFrom depth pos (l ++ r) =
        classBodyFrom depth' (pos + l.length) r := by
  induction l generalizing depth pos with
  | nil => exact .inr ⟨depth, fun r => rfl⟩
  | cons c l ih =>
    have hlen : pos + (c :: l).length = pos + 1 + l.length := by rw [List.length_cons]; omega
    rw [hlen]
    simp only [List.cons_append, classBodyFrom]
    split
    · exact ih (depth + 1) (pos + 1)
    · split
      · exact ih (depth - 1) (pos + 1)
      · split
        · exact .inl ⟨some pos, fun p hp => by obtain rfl := Option.some.inj hp; omega,
            fun r => rfl⟩
        · split
          · exact .inl ⟨none, by simp, fun r => rfl⟩
          · exact ih depth (pos + 1)

/-- Corresponding positions before the lead, or behind it. -/
def Moved (a b b' : Code) (p p' : Nat) : Prop :=
  (p < a.length ∧ p' = p) ∨
    ∃ q, p = (a ++ b).length + q ∧ p' = (a ++ b').length + q

section

variable {a b b' c : Code} {p p' : Nat}

theorem Moved.unique {p'' : Nat} (h : Moved a b b' p p') (h' : Moved a b b' p p'') : p' = p'' := by
  rcases h with ⟨hlt, rfl⟩ | ⟨q, hq, rfl⟩ <;> rcases h' with ⟨hlt', rfl⟩ | ⟨q', hq', rfl⟩
  · rfl
  · rw [List.length_append] at hq'
    omega
  · rw [List.length_append] at hq
    omega
  · omega

theorem matchingClose?_moved {opening closing : Char}
    (hb : ∀ depth rest, closeFrom opening closing depth (b ++ rest) =
      (closeFrom opening closing depth rest).map (b.length + ·))
    (hb' : ∀ depth rest, closeFrom opening closing depth (b' ++ rest) =
      (closeFrom opening closing depth rest).map (b'.length + ·))
    (hp : Moved a b b' p p') :
    Option.Rel (Moved a b b') (matchingClose? opening closing (a ++ b ++ c) p)
      (matchingClose? opening closing (a ++ b' ++ c) p') := by
  rcases hp with ⟨hlt, rfl⟩ | ⟨q, rfl, rfl⟩
  · have hdrop : ∀ l : Code, (a ++ l ++ c).drop p' = a[p'] :: (a.drop (p' + 1) ++ (l ++ c)) := by
      intro l
      rw [List.append_assoc, List.drop_append_of_le_length (Nat.le_of_lt hlt),
        List.drop_eq_getElem_cons hlt, List.cons_append]
    simp only [matchingClose?, hdrop]
    split
    · rcases closeFrom_append_cases opening closing 0 (a.drop (p' + 1)) with
        ⟨n, hn, hfound⟩ | ⟨depth, hgoes⟩
      · rw [hfound, hfound]
        rw [List.length_drop] at hn
        exact .some (.inl ⟨by simp only at *; omega, rfl⟩)
      · rw [hgoes, hgoes, hb, hb']
        cases closeFrom opening closing depth c with
        | none => exact .none
        | some n =>
          refine .some (.inr ⟨n, ?_, ?_⟩) <;>
            simp only [List.length_append, List.length_drop] <;> omega
    · exact .none
  · have hdrop : ∀ l : Code, (a ++ l ++ c).drop ((a ++ l).length + q) = c.drop q := by
      intro l
      rw [← List.drop_drop, List.drop_left]
    simp only [matchingClose?, hdrop]
    cases c.drop q with
    | nil => exact .none
    | cons d rest =>
      simp only
      split
      · cases closeFrom opening closing 0 rest with
        | none => exact .none
        | some n =>
          refine .some (.inr ⟨q + 1 + n, ?_, ?_⟩) <;> (beta_reduce; omega)
      · exact .none

theorem classBodyFrom_shift (n depth pos : Nat) (cells : Code) :
    classBodyFrom depth (n + pos) cells = (classBodyFrom depth pos cells).map (n + ·) := by
  induction cells generalizing depth pos with
  | nil => rfl
  | cons c rest ih =>
    have hnext : ∀ d, classBodyFrom d (n + pos + 1) rest =
        (classBodyFrom d (pos + 1) rest).map (n + ·) := fun d => ih d (pos + 1)
    simp only [classBodyFrom]
    split
    · exact hnext _
    · split
      · exact hnext _
      · split
        · rfl
        · split
          · rfl
          · exact hnext _

theorem classBodyFrom_moved {n : Nat} (hn : n ≤ a.length) (hb : Passed a n b)
    (hb' : Passed a n b')
    (hp : (p ≤ n ∧ p' = p) ∨ ∃ q, p = (a ++ b).length + q ∧ p' = (a ++ b').length + q) :
    Option.Rel (Moved a b b') (classBodyFrom 0 p ((a ++ b ++ c).drop p))
      (classBodyFrom 0 p' ((a ++ b' ++ c).drop p')) := by
  -- Behind the exchanged part, both searches are one search of what follows it.
  have hbehind : ∀ (d q : Nat) (cells : Code),
      Option.Rel (Moved a b b') (classBodyFrom d ((a ++ b).length + q) cells)
        (classBodyFrom d ((a ++ b').length + q) cells) := by
    intro d q cells
    rw [classBodyFrom_shift, classBodyFrom_shift]
    cases classBodyFrom d q cells with
    | none => exact .none
    | some n => exact .some (.inr ⟨n, rfl, rfl⟩)
  rcases hp with ⟨hle, rfl⟩ | ⟨q, rfl, rfl⟩
  · have hdrop : ∀ l : Code, (a ++ l ++ c).drop p' = a.drop p' ++ (l ++ c) := by
      intro l
      rw [List.append_assoc, List.drop_append_of_le_length (by omega)]
    have hlen : p' + (a.drop p').length = a.length := by
      rw [List.length_drop]
      omega
    rw [hdrop, hdrop]
    rcases classBodyFrom_append_cases 0 p' (a.drop p') with ⟨answer, hlt, hfound⟩ | ⟨d, hgoes⟩
    · rw [hfound, hfound]
      cases answer with
      | none => exact .none
      | some n => exact .some (.inl ⟨by have := hlt n rfl; omega, rfl⟩)
    · rw [hlen] at hgoes
      rw [hgoes, hgoes, hb.body p' hle d hgoes, hb'.body p' hle d hgoes]
      simpa only [List.length_append, Nat.add_zero] using hbehind d 0 c
  · have hdrop : ∀ l : Code, (a ++ l ++ c).drop ((a ++ l).length + q) = c.drop q := by
      intro l
      rw [← List.drop_drop, List.drop_left]
    rw [hdrop, hdrop]
    exact hbehind 0 q (c.drop q)

theorem typeParams?_moved {n : Nat} (hb : Passed a n b) (hb' : Passed a n b')
    (hlt : p < a.length) :
    Option.Rel (fun t t' => (t.elim p Range.stop ≤ a.length ∧ t' = t) ∨
        ∃ q, 0 < q ∧ t.elim p Range.stop = (a ++ b).length + q ∧
          t'.elim p Range.stop = (a ++ b').length + q)
      ((a ++ b ++ c).typeParams? p) ((a ++ b' ++ c).typeParams? p) := by
  have hget : ∀ l : Code, (a ++ l ++ c)[p]? = a[p]? := fun l => by
    rw [List.append_assoc, List.getElem?_append_left hlt]
  simp only [typeParams?, hget]
  split
  · have hclose := matchingClose?_moved (c := c) hb.angles hb'.angles (.inl ⟨hlt, rfl⟩)
    revert hclose
    generalize matchingClose? '<' '>' (a ++ b ++ c) p = o
    generalize matchingClose? '<' '>' (a ++ b' ++ c) p = o'
    rintro (⟨hmoved⟩ | _)
    · refine .some ?_
      rcases hmoved with ⟨hle, rfl⟩ | ⟨q, rfl, rfl⟩
      · exact .inl ⟨hle, rfl⟩
      · exact .inr ⟨q + 1, q.succ_pos, rfl, rfl⟩
    · exact .none
  · exact .some (.inl ⟨Nat.le_of_lt hlt, rfl⟩)

end

/-! The front of a class, before the exchanged lead. -/

theorem leading_append_of_false {p : Char → Bool} {x : Code} {n : Nat} {c : Char}
    (hn : x[n]? = some c) (hc : p c = false) (y : Code) :
    leading p x ≤ n ∧ leading p (x ++ y) = leading p x := by
  induction x generalizing n with
  | nil => simp at hn
  | cons d x ih =>
    rw [List.cons_append, leading_cons, leading_cons]
    split
    · rename_i hd
      cases n with
      | zero =>
        obtain rfl := Option.some.inj hn
        rw [hc] at hd
        cases hd
      | succ n =>
        obtain ⟨hle, heq⟩ := ih hn
        exact ⟨by omega, by rw [heq]⟩
    · exact ⟨Nat.zero_le _, rfl⟩

/-- A run at the front ends in the first part, or goes on through all of it. -/
theorem leading_append_cases (p : Char → Bool) (l r : Code) :
    (leading p l < l.length ∧ leading p (l ++ r) = leading p l) ∨
      (leading p l = l.length ∧ leading p (l ++ r) = l.length + leading p r) := by
  induction l with
  | nil => exact .inr ⟨rfl, (Nat.zero_add _).symm⟩
  | cons c l ih =>
    rw [List.cons_append, leading_cons, leading_cons]
    split
    · rcases ih with ⟨hlt, heq⟩ | ⟨heq, hall⟩
      · exact .inl ⟨Nat.succ_lt_succ hlt, by rw [heq]⟩
      · exact .inr ⟨by rw [heq]; rfl, by rw [hall, List.length_cons]; omega⟩
    · exact .inl ⟨Nat.succ_pos _, rfl⟩

section

variable {a : Code} {n : Nat} (h : a.EndsAt n)
include h

theorem EndsAt.lt : n < a.length := by
  obtain ⟨c, hc, -⟩ := h.ended
  exact (List.getElem?_eq_some_iff.mp hc).1

/-- A run of cells that ends at the latest where the code ends does not see what follows. -/
theorem EndsAt.run {p : Char → Bool} (hp : ∀ c, isEnd c = true → p c = false) {i : Nat}
    (hi : i ≤ n) (r : Code) :
    i + leading p (a.window i a.length) ≤ n ∧
      leading p ((a ++ r).window i (a ++ r).length) = leading p (a.window i a.length) := by
  obtain ⟨c, hc, hend⟩ := h.ended
  have hlt := h.lt
  have hwindow : (a ++ r).window i (a ++ r).length = a.window i a.length ++ r := by
    rw [window, window, List.drop_append_of_le_length (by omega), List.take_of_length_le,
      List.take_of_length_le] <;> simp only [List.length_append, List.length_drop] <;> omega
  have hget : (a.window i a.length)[n - i]? = some c := by
    rw [getElem?_window_of_lt (by omega), ← hc]
    congr 1
    omega
  obtain ⟨hle, heq⟩ := leading_append_of_false hget (hp c hend) r
  exact ⟨by omega, by rw [hwindow, heq]⟩

theorem EndsAt.skipBlanks {i : Nat} (hi : i ≤ n) (r : Code) :
    a.skipBlanks i a.length ≤ n ∧
      (a ++ r).skipBlanks i (a ++ r).length = a.skipBlanks i a.length := by
  obtain ⟨hle, heq⟩ := h.run (fun c hc => (not_of_isEnd hc).1) hi r
  exact ⟨hle, by rw [Code.skipBlanks, heq, Code.skipBlanks]⟩

theorem EndsAt.identEnd {i : Nat} (hi : i ≤ n) (r : Code) :
    a.identEnd i a.length ≤ n ∧ (a ++ r).identEnd i (a ++ r).length = a.identEnd i a.length := by
  obtain ⟨hle, heq⟩ := h.run (fun c hc => (not_of_isEnd hc).2) hi r
  exact ⟨hle, by rw [Code.identEnd, heq, Code.identEnd]⟩

/-- Nothing of a word stands behind the end. -/
theorem EndsAt.word_le {word : Code} (hne : word ≠ []) (hword : ∀ c ∈ word, isIdentCell c = true)
    {p : Nat} (hp : p ∈ wordPositions word a) : p + word.length ≤ n := by
  have hshows := ((mem_wordPositions_iff hne hword).mp hp).shows
  obtain ⟨e, he, hend⟩ := h.ended
  have hident : ∀ i < word.length, ∃ c, a[p + i]? = some c ∧ isIdentCell c = true := by
    intro i hi
    exact ⟨word[i], by rw [hshows.getElem? hi, List.getElem?_eq_getElem hi],
      hword _ (List.getElem_mem hi)⟩
  by_contra hlt
  rcases Nat.lt_or_ge n p with hbefore | hwithin
  · obtain ⟨c, hc, hident⟩ := hident 0 (List.length_pos_iff.mpr hne)
    have hblank := h.blanks c (List.mem_iff_getElem?.mpr ⟨p - (n + 1), by
      rw [List.getElem?_drop, ← hc]
      congr 1
      omega⟩)
    rw [isLayoutBlank_eq_false_of_isIdentCell hident] at hblank
    cases hblank
  · obtain ⟨c, hc, hident⟩ := hident (n - p) (by omega)
    rw [show p + (n - p) = n by omega, he] at hc
    obtain rfl := Option.some.inj hc
    rw [(not_of_isEnd hend).2] at hident
    cases hident

/-- The last cell ends the code, or blanks follow what does. -/
theorem EndsAt.last {d : Char} (hd : a.getLast? = some d) :
    isLayoutBlank d = true ∨ isEnd d = true := by
  obtain ⟨c, hc, hend⟩ := h.ended
  have hlt := h.lt
  rw [List.getLast?_eq_getElem?] at hd
  rcases Nat.lt_or_ge n (a.length - 1) with hbefore | hlast
  · refine .inl (h.blanks d (List.mem_iff_getElem?.mpr ⟨a.length - 1 - (n + 1), ?_⟩))
    rw [List.getElem?_drop, ← hd]
    congr 1
    omega
  · rw [show a.length - 1 = n by omega, hc] at hd
    exact .inr (Option.some.inj hd ▸ hend)

/-- Only blanks stand behind the end. -/
theorem EndsAt.lt_of_getElem? {i : Nat} {c : Char} (hc : a[i]? = some c)
    (hblank : isLayoutBlank c = false) (hend : isEnd c = false) : i < n := by
  by_contra hge
  rcases Nat.eq_or_lt_of_le (Nat.le_of_not_lt hge) with rfl | hlt
  · obtain ⟨e, he, hisEnd⟩ := h.ended
    rw [Option.some.inj (hc.symm.trans he), hisEnd] at hend
    cases hend
  · have hmem : c ∈ a.drop (n + 1) := by
      refine List.mem_iff_getElem?.mpr ⟨i - (n + 1), ?_⟩
      rw [List.getElem?_drop, ← hc]
      congr 1
      omega
    rw [h.blanks c hmem] at hblank
    cases hblank

theorem EndsAt.apart (r : Code) : Apart a r := by
  refine .inl fun d hd => ?_
  rcases h.last hd with hblank | hend
  · by_contra hident
    rw [isLayoutBlank_eq_false_of_isIdentCell (by simpa using hident)] at hblank
    cases hblank
  · exact (not_of_isEnd hend).2

end

theorem window_append_left {a : Code} {i j : Nat} (hj : j ≤ a.length) (r : Code) :
    (a ++ r).window i j = a.window i j := by
  rcases Nat.le_total i j with hij | hji
  · rw [window, window, List.drop_append_of_le_length (by omega),
      List.take_append_of_le_length (by rw [List.length_drop]; omega)]
  · rw [window_of_le hji, window_of_le hji]

/-- Code that begins, up to blanks, with a cell that neither goes on a name nor opens type
parameters. -/
structure Halting (r : Code) : Prop where
  halts : ∃ b d rest, r = b ++ d :: rest ∧ (∀ c ∈ b, isLayoutBlank c = true) ∧
    isLayoutBlank d = false ∧ isIdentCell d = false ∧ d ≠ '<'

namespace Halting

variable {a r : Code} (h : Halting r)
include h

theorem head {c : Char} (hc : r.head? = some c) : isIdentCell c = false := by
  obtain ⟨b, d, rest, rfl, hb, hd, hident, -⟩ := h.halts
  cases b with
  | nil => exact Option.some.inj hc ▸ hident
  | cons e b =>
    by_contra hword
    have hblank := hb e List.mem_cons_self
    rw [Option.some.inj hc] at hblank
    rw [isLayoutBlank_eq_false_of_isIdentCell (by simpa using hword)] at hblank
    cases hblank

theorem apart (l : Code) : Apart l r := .inr fun _ hc => h.head hc

/-- A name ends where the code in front does, at the latest. -/
theorem identEnd {i : Nat} (hi : i ≤ a.length) :
    (a ++ r).identEnd i (a ++ r).length = a.identEnd i a.length := by
  rw [Code.identEnd, Code.identEnd, window_length, window_length,
    List.drop_append_of_le_length hi]
  congr 1
  rcases leading_append_cases isIdentCell (a.drop i) r with ⟨-, heq⟩ | ⟨heq, hall⟩
  · exact heq
  · have hzero : leading isIdentCell r = 0 := by
      cases r with
      | nil => rfl
      | cons c r => rw [leading_cons, h.head rfl]; rfl
    rw [hall, hzero, heq, Nat.add_zero]

/-- Blanks end in the code in front, or before a cell at which no name begins. -/
theorem skipBlanks {i : Nat} (hi : i ≤ a.length) :
    (a.skipBlanks i a.length < a.length ∧
        (a ++ r).skipBlanks i (a ++ r).length = a.skipBlanks i a.length) ∨
      a.skipBlanks i a.length = a.length ∧ ∃ q d,
        (a ++ r).skipBlanks i (a ++ r).length = a.length + q ∧ (a ++ r)[a.length + q]? = some d ∧
        isIdentCell d = false ∧ d ≠ '<' ∧
        classBodyFrom 0 (a.length + q) ((a ++ r).drop (a.length + q)) =
          classBodyFrom 0 a.length r := by
  rw [Code.skipBlanks, Code.skipBlanks, window_length, window_length,
    List.drop_append_of_le_length hi]
  rcases leading_append_cases isLayoutBlank (a.drop i) r with ⟨hlt, heq⟩ | ⟨heq, hall⟩
  · rw [List.length_drop] at hlt
    exact .inl ⟨by omega, by rw [heq]⟩
  · rw [List.length_drop] at heq hall
    refine .inr ⟨by omega, ?_⟩
    obtain ⟨b, d, rest, rfl, hb, hd, hident, hangle⟩ := h.halts
    have hdrop : (a ++ (b ++ d :: rest)).drop (a.length + b.length) = d :: rest := by
      rw [← List.drop_drop, List.drop_left, List.drop_left]
    refine ⟨b.length, d, ?_, ?_, hident, hangle, ?_⟩
    · rw [hall, leading_run hb hd]
      omega
    · rw [← List.head?_drop, hdrop]
      rfl
    · rw [hdrop]
      have hinert : ∀ c ∈ b, isInert c = true := fun c hc => isInert_of_isLayoutBlank (hb c hc)
      exact (classBodyFrom_nested (stackAfter_of_isInert hinert []) 0 a.length (d :: rest)).symm

end Halting

end ClassRefactor.Code
