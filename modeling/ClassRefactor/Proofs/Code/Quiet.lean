import ClassRefactor.Proofs.Code.Mask

/-!
# Text that is all code

A comment or a literal begins with a character of its own. A text without such characters is code
wherever code may stand, and text around it is read as if it were not there.
-/

namespace ClassRefactor

/-- A character that begins neither a comment nor a literal. An `@` does so only before a quote. -/
def isQuiet (c : Char) : Bool := c != '/' && c != '#' && c != '"' && c != '\'' && c != '$'

/-- No literal that begins or ends before such a text takes in a part of it. -/
structure Mild (t : Text) : Prop where
  quote : t.head? ≠ some '"'
  dollar : t.head? ≠ some '$'
  verbatim : t.head? = some '@' → t.tail.head? ≠ some '"'

/-- What stands before such a text is read without regard to it. -/
structure Calm (t : Text) : Prop extends Mild t where
  slash : t.head? ≠ some '/'
  star : t.head? ≠ some '*'

/-- A scan of the source within it: where it stands, how many characters share the mode of the last
one read, and that mode. -/
structure Scan where
  place : Place
  held : Nat
  mode : Mode
deriving DecidableEq

namespace Scan

/-- The scan after one more character. -/
def next (s : Scan) (c : Char) (rest : Text) : Scan :=
  match s.held with
  | held + 1 => { s with held }
  | 0 =>
    let (mode, held, place) := s.place.step c rest
    { place, held, mode }

/-- The modes of what is still to be read. -/
def modes (s : Scan) (t : Text) : List Mode := s.place.modes s.held s.mode t

/-- The scan after the first part of a text. -/
def after (s : Scan) : (front rest : Text) → Scan
  | [], _ => s
  | c :: front, rest => (s.next c (front ++ rest)).after front rest

theorem modes_cons (s : Scan) (c : Char) (t : Text) :
    s.modes (c :: t) = (s.next c t).mode :: (s.next c t).modes t := by
  obtain ⟨place, held, mode⟩ := s
  cases held <;> rfl

theorem modes_append (s : Scan) (front rest : Text) :
    s.modes (front ++ rest) =
      (s.modes (front ++ rest)).take front.length ++ (s.after front rest).modes rest := by
  induction front generalizing s with
  | nil => rfl
  | cons c front ih =>
    rw [List.cons_append, modes_cons, after, List.length_cons, List.take_succ_cons,
      List.cons_append, ← ih]

end Scan

/-- The scan of a whole text. -/
def Scan.start : Scan := { place := .code true, held := 0, mode := .code }

theorem Text.modes_eq (t : Text) : t.modes = Scan.start.modes t := rfl

/-! The text ahead. -/

theorem head?_append_calm {t u : Text} (front : Text) {c : Char} (ht : t.head? ≠ some c)
    (hu : u.head? ≠ some c) :
    ((front ++ t).head? == some c) = ((front ++ u).head? == some c) := by
  cases front with
  | nil => rw [List.nil_append, List.nil_append, beq_eq_false_iff_ne.mpr ht,
      beq_eq_false_iff_ne.mpr hu]
  | cons d front => rfl

theorem quoteRun_cons (c : Char) (t : Text) :
    Place.quoteRun (c :: t) = if c == '"' then Place.quoteRun t + 1 else 0 := by
  simp only [Place.quoteRun, List.takeWhile_cons]
  split <;> rfl

theorem quoteRun_append_calm {t : Text} (ht : t.head? ≠ some '"') (front : Text) :
    Place.quoteRun (front ++ t) = Place.quoteRun front := by
  induction front with
  | nil =>
    cases t with
    | nil => rfl
    | cons c t =>
      have hc : (c == '"') = false := by simpa using ht
      simp [Place.quoteRun, hc]
  | cons c front ih => rw [List.cons_append, quoteRun_cons, quoteRun_cons, ih]

/-- The mark of a verbatim string is at most three characters long. -/
theorem verbatimMark_cons (c : Char) (rest : Text) :
    Place.verbatimMark (c :: rest) =
      if c = '@' ∧ rest.head? = some '"' then some 2
      else if c = '@' ∧ rest.head? = some '$' ∧ rest.tail.head? = some '"' then some 3
      else if c = '$' ∧ rest.head? = some '@' ∧ rest.tail.head? = some '"' then some 3
      else none := by
  unfold Place.verbatimMark
  split
  · simp_all
  · simp_all
  · simp_all
  · rename_i h1 h2 h3
    have hne : ¬(c = '@' ∧ rest.head? = some '"') := by
      rintro ⟨rfl, h⟩
      obtain ⟨r, rfl⟩ := List.head?_eq_some_iff.mp h
      exact h1 r rfl
    have hne' : ¬(c = '@' ∧ rest.head? = some '$' ∧ rest.tail.head? = some '"') := by
      rintro ⟨rfl, h, h'⟩
      obtain ⟨r, rfl⟩ := List.head?_eq_some_iff.mp h
      obtain ⟨r, rfl⟩ := List.head?_eq_some_iff.mp h'
      exact h2 r rfl
    have hne'' : ¬(c = '$' ∧ rest.head? = some '@' ∧ rest.tail.head? = some '"') := by
      rintro ⟨rfl, h, h'⟩
      obtain ⟨r, rfl⟩ := List.head?_eq_some_iff.mp h
      obtain ⟨r, rfl⟩ := List.head?_eq_some_iff.mp h'
      exact h3 r rfl
    rw [if_neg hne, if_neg hne', if_neg hne'']

theorem opensString_cons (c : Char) (rest : Text) :
    Place.opensString (c :: rest) = (c == '"' || (c == '$' && rest.head? == some '"')) := by
  unfold Place.opensString
  split
  · simp_all
  · simp_all
  · rename_i h1 h2
    have hc : c ≠ '"' := fun hc => h1 rest (by rw [hc])
    have hdollar : ¬(c = '$' ∧ rest.head? = some '"') := by
      rintro ⟨rfl, h⟩
      obtain ⟨r, rfl⟩ := List.head?_eq_some_iff.mp h
      exact h2 r rfl
    rw [eq_comm, Bool.eq_false_iff]
    simpa [hc] using hdollar

section

variable {t t' : Text} (ht : Mild t) (ht' : Mild t')
include ht ht'

theorem verbatimMark_mild (c : Char) (front : Text) :
    Place.verbatimMark (c :: (front ++ t)) = Place.verbatimMark (c :: (front ++ t')) := by
  have hnone : ∀ {u : Text}, Mild u → Place.verbatimMark (c :: u) = none := by
    intro u hu
    rw [verbatimMark_cons, if_neg (fun h => hu.quote h.2), if_neg (fun h => hu.dollar h.2.1),
      if_neg (fun h => hu.verbatim h.2.1 h.2.2)]
  cases front with
  | nil => rw [List.nil_append, List.nil_append, hnone ht, hnone ht']
  | cons d front =>
    cases front with
    | nil => simp [verbatimMark_cons, ht.quote, ht'.quote]
    | cons e front => simp [verbatimMark_cons]

theorem quoteRun_mild (c : Char) (front : Text) :
    Place.quoteRun ((c :: (front ++ t)).drop (if c == '$' then 1 else 0)) =
      Place.quoteRun ((c :: (front ++ t')).drop (if c == '$' then 1 else 0)) := by
  split
  · simp only [List.drop_succ_cons, List.drop_zero, quoteRun_append_calm ht.quote,
      quoteRun_append_calm ht'.quote]
  · simp only [List.drop_zero, ← List.cons_append, quoteRun_append_calm ht.quote,
      quoteRun_append_calm ht'.quote]

/-- A step ahead of such texts depends on them only where the mark of a comment may begin. -/
theorem step_mild (place : Place) (c : Char) (front : Text)
    (hslash : ((front ++ t).head? == some '/') = ((front ++ t').head? == some '/'))
    (hstar : ((front ++ t).head? == some '*') = ((front ++ t').head? == some '*')) :
    place.step c (front ++ t) = place.step c (front ++ t') := by
  have hquote := head?_append_calm front ht.quote ht'.quote
  cases place with
  | code fresh =>
    simp only [Place.step, Place.stepCode, hslash, hstar, opensString_cons, hquote,
      verbatimMark_mild ht ht', quoteRun_mild ht ht']
  | lineComment => rfl
  | blockComment fresh => simp only [Place.step, hslash]
  | quoted close => rfl
  | verbatim => simp only [Place.step, hquote]
  | raw quotes =>
    simp only [Place.step, ← List.cons_append, quoteRun_append_calm ht.quote,
      quoteRun_append_calm ht'.quote]

end

section

variable {t t' : Text} (ht : Calm t) (ht' : Calm t')
include ht ht'

theorem step_calm (place : Place) (c : Char) (front : Text) :
    place.step c (front ++ t) = place.step c (front ++ t') :=
  step_mild ht.toMild ht'.toMild place c front (head?_append_calm front ht.slash ht'.slash)
    (head?_append_calm front ht.star ht'.star)

theorem Scan.next_calm (s : Scan) (c : Char) (front : Text) :
    s.next c (front ++ t) = s.next c (front ++ t') := by
  simp only [Scan.next, step_calm ht ht' s.place c front]

/-- What precedes a calm text is read in the same way whatever that text is. -/
theorem Scan.modes_calm (s : Scan) (front : Text) :
    (s.modes (front ++ t)).take front.length = (s.modes (front ++ t')).take front.length ∧
      s.after front t = s.after front t' := by
  induction front generalizing s with
  | nil => exact ⟨rfl, rfl⟩
  | cons c front ih =>
    simp only [List.cons_append, Scan.modes_cons, Scan.after, List.length_cons,
      List.take_succ_cons, s.next_calm ht ht' c front]
    exact ⟨by rw [(ih _).1], (ih _).2⟩

end

/-! Quiet text. -/

/-- In code a quiet character is code. -/
theorem stepCode_quiet {fresh : Bool} {c : Char} {rest : Text} (hc : isQuiet c = true)
    (hquote : rest.head? ≠ some '"') (hdollar : rest.head? ≠ some '$') :
    Place.stepCode fresh c rest = (.code, 0, .code (c == '\n' || (isLayoutBlank c && fresh))) := by
  simp only [isQuiet, Bool.and_eq_true, bne_iff_ne] at hc
  have hverbatim : Place.verbatimMark (c :: rest) = none := by
    simp [verbatimMark_cons, hquote, hdollar, hc]
  simp [Place.stepCode, hverbatim, opensString_cons, hc]

/-- The scan is in code. -/
structure Scan.InCode (s : Scan) : Prop where
  held : s.held = 0
  place : ∃ fresh, s.place = .code fresh

theorem Scan.InCode.next {s : Scan} (h : s.InCode) {c : Char} {rest : Text} (hc : isQuiet c = true)
    (hquote : rest.head? ≠ some '"') (hdollar : rest.head? ≠ some '$') :
    (s.next c rest).mode = .code ∧ (s.next c rest).InCode := by
  obtain ⟨place, held, mode⟩ := s
  obtain ⟨rfl, fresh, rfl⟩ := h
  have hnext : Scan.next ⟨.code fresh, 0, mode⟩ c rest =
      ⟨.code (c == '\n' || (isLayoutBlank c && fresh)), 0, .code⟩ := by
    simp only [Scan.next, Place.step, stepCode_quiet hc hquote hdollar]
  rw [hnext]
  exact ⟨rfl, rfl, _, rfl⟩

theorem Scan.InCode.quiet {s : Scan} (h : s.InCode) {front rest : Text}
    (hfront : ∀ c ∈ front, isQuiet c = true) (hquote : rest.head? ≠ some '"')
    (hdollar : rest.head? ≠ some '$') :
    (s.modes (front ++ rest)).take front.length = List.replicate front.length .code ∧
      (s.after front rest).InCode := by
  induction front generalizing s with
  | nil => exact ⟨rfl, h⟩
  | cons c front ih =>
    have hahead : (front ++ rest).head? ≠ some '"' ∧ (front ++ rest).head? ≠ some '$' := by
      cases front with
      | nil => exact ⟨hquote, hdollar⟩
      | cons d front =>
        have hd := hfront d (by simp)
        simp only [isQuiet, Bool.and_eq_true, bne_iff_ne] at hd
        simp [hd]
    obtain ⟨hmode, hnext⟩ := h.next (hfront c List.mem_cons_self) hahead.1 hahead.2
    obtain ⟨hmodes, hafter⟩ := ih hnext fun d hd => hfront d (List.mem_cons_of_mem _ hd)
    rw [List.cons_append, Scan.modes_cons, List.length_cons, List.take_succ_cons, hmode, hmodes]
    exact ⟨rfl, hafter⟩

theorem maskWith_code (t : Text) : Text.maskWith t (List.replicate t.length .code) = t := by
  induction t with
  | nil => rfl
  | cons c t ih => rw [List.length_cons, List.replicate_succ, Text.maskWith_cons, ih]; rfl

/-- A quiet text is its own mask. -/
theorem Text.mask_quiet {t : Text} (h : ∀ c ∈ t, isQuiet c = true) : t.mask = t := by
  have hstart : Scan.start.InCode := ⟨rfl, true, rfl⟩
  have hmodes : (Scan.start.modes (t ++ [])).take t.length = List.replicate t.length .code :=
    (hstart.quiet h (by simp) (by simp)).1
  have hlength : (Scan.start.modes t).length = t.length := Text.length_modes t
  rw [List.append_nil, ← hlength, List.take_length, hlength] at hmodes
  rw [Text.mask_eq_maskWith, Text.modes_eq, hmodes, maskWith_code]

end ClassRefactor
