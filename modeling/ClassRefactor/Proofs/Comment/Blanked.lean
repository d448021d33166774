import ClassRefactor.Proofs.Code.Sane
import ClassRefactor.Proofs.Text.Strip

/-!
# A source without its comments

Blanking a comment leaves a space for each of its bytes and keeps its line feeds, so every offset
stays what it was. The blanked source is scanned like the source itself: a comment begins where a
scan is in code, and blanks leave it there. There is one exception. A line feed within a block
comment makes what follows the first of its line, and a `#` that was code before it begins a
preprocessor line after it. Apart from that the two have one masked form.
-/

namespace ClassRefactor

namespace Text

/-- What stands for a character once comments are blanked: code and literals stay as they are. -/
def blankOne (c : Char) (mode : Mode) : Text := if mode = .comment then maskOne c mode else [c]

/-- The source with a space for each byte of a comment, line feeds excepted. -/
def blankComments (t : Text) : Text := (t.zipWith blankOne (modes t)).flatten

/-- Whether a character that begins in a range belongs to a comment. -/
def HasComment (t : Text) (r : Range) : Prop :=
  ∃ i, t.modes[i]? = some .comment ∧ r.contains (size (t.take i)) = true

end Text

/-- What is left of a comment: blanks. -/
theorem blank_of_mem_maskOne {c d : Char} (h : d ∈ Text.maskOne c .comment) :
    isLayoutBlank d = true := by
  simp only [Text.maskOne] at h
  split at h
  · rename_i hc
    rw [List.mem_singleton.mp h, beq_iff_eq.mp hc]
    rfl
  · rw [(List.mem_replicate.mp h).2]
    rfl

namespace Scan

/-- The first part of a text, with blanks for comments. -/
def blank (s : Scan) : (front rest : Text) → Text
  | [], _ => []
  | c :: front, rest =>
    Text.blankOne c (s.next c (front ++ rest)).mode ++ (s.next c (front ++ rest)).blank front rest

theorem blank_append (s : Scan) (a b rest : Text) :
    s.blank (a ++ b) rest = s.blank a (b ++ rest) ++ (s.after a (b ++ rest)).blank b rest := by
  induction a generalizing s with
  | nil => rfl
  | cons c a ih =>
    rw [List.cons_append, blank, ih, blank, after, List.append_assoc, List.append_assoc]

@[simp] theorem size_blankOne (c : Char) (mode : Mode) :
    Text.size (Text.blankOne c mode) = c.utf8Size := by
  unfold Text.blankOne
  split <;> simp

@[simp] theorem size_blank (s : Scan) (front rest : Text) :
    Text.size (s.blank front rest) = Text.size front := by
  induction front generalizing s with
  | nil => rfl
  | cons c front ih => rw [blank, Text.size_append, ih, size_blankOne, Text.size_cons]

theorem blankComments_eq (t : Text) : t.blankComments = start.blank t [] := by
  have hall : ∀ (s : Scan) (u : Text), (u.zipWith Text.blankOne (s.modes u)).flatten =
      s.blank u [] := by
    intro s u
    induction u generalizing s with
    | nil => simp [blank]
    | cons c u ih => rw [modes_cons, List.zipWith_cons_cons, List.flatten_cons, ih, blank,
        List.append_nil]
  exact hall start t

/-! What a scan sees ahead. -/

/-- A comment begins with a `/` or a `#`. -/
theorem Sane.opens_comment {s : Scan} (h : s.Sane) (hs : s.mode ≠ .comment) {c : Char}
    {rest : Text} (hmode : (s.next c rest).mode = .comment) : c = '/' ∨ c = '#' := by
  obtain ⟨place, held, mode⟩ := s
  cases held with
  | succ held => exact absurd hmode hs
  | zero =>
    rcases place.kind with ⟨fresh, rfl⟩ | hplace | hplace
    · have hstep : (Place.stepCode fresh c rest).1 = .comment := hmode
      rcases Place.stepCode_cases fresh c rest with ⟨-, hc⟩ | ⟨-, hc, -⟩ | ⟨_, _, heq, -⟩ | heq
      · exact hc.imp And.left And.left
      · exact .inl hc
      · rw [heq] at hstep
        cases hstep
      · rw [heq] at hstep
        cases hstep
    · cases hmode.symm.trans (Place.step_of_inLiteral hplace c rest).1
    · exact absurd (h.comment hplace) hs

theorem ne_of_opens {c d : Char} (hd : d ≠ ' ' ∧ d ≠ '/' ∧ d ≠ '#') (hc : c = '/' ∨ c = '#') :
    c ≠ d := by
  rcases hc with rfl | rfl
  · exact hd.2.1.symm
  · exact hd.2.2.symm

section Ahead

variable {s : Scan} (hs : s.Sane) (hmode : s.mode ≠ .comment)
include hs hmode

/-- Outside comments, what comes next is what it was, or a blank in the place of a `/` or `#`. -/
theorem blank_cons_cases (c : Char) (rest : Text) :
    (s.next c rest).mode ≠ .comment ∧ s.blank (c :: rest) [] = c :: (s.next c rest).blank rest [] ∨
      (c = '/' ∨ c = '#') ∧ ∃ u, s.blank (c :: rest) [] = ' ' :: u := by
  by_cases hnext : (s.next c rest).mode = .comment
  · have hopens := hs.opens_comment hmode hnext
    refine .inr ⟨hopens, ?_⟩
    have hone : Text.blankOne c .comment = [' '] := by rcases hopens with rfl | rfl <;> decide
    rw [blank, List.append_nil, hnext, hone]
    exact ⟨_, rfl⟩
  · refine .inl ⟨hnext, ?_⟩
    rw [blank, List.append_nil, Text.blankOne, if_neg hnext]
    rfl

/-- A character that is no space and begins no comment is next after blanking if it was before. -/
theorem head?_blank {d : Char} (hd : d ≠ ' ' ∧ d ≠ '/' ∧ d ≠ '#') (t : Text) :
    ((s.blank t []).head? = some d) = (t.head? = some d) := by
  cases t with
  | nil => rfl
  | cons c rest =>
    rcases blank_cons_cases hs hmode c rest with ⟨-, heq⟩ | ⟨hc, u, heq⟩
    · simp [heq]
    · simp [heq, ne_of_opens hd hc, hd.1.symm]

theorem head?_beq_blank {d : Char} (hd : d ≠ ' ' ∧ d ≠ '/' ∧ d ≠ '#') (t : Text) :
    ((s.blank t []).head? == some d) = (t.head? == some d) := by
  rw [Bool.eq_iff_iff, beq_iff_eq, beq_iff_eq, head?_blank hs hmode hd]

/-- Nothing becomes a `/`. -/
theorem slash_of_blank {t : Text} (h : (s.blank t []).head? = some '/') : t.head? = some '/' := by
  cases t with
  | nil => cases h
  | cons c rest =>
    rcases blank_cons_cases hs hmode c rest with ⟨-, heq⟩ | ⟨-, u, heq⟩
    · simpa [heq] using h
    · simp [heq] at h

/-- The second character ahead, behind one that begins no comment. -/
theorem tail_blank {d e : Char} (hd : d ≠ ' ' ∧ d ≠ '/' ∧ d ≠ '#')
    (he : e ≠ ' ' ∧ e ≠ '/' ∧ e ≠ '#') (t : Text) :
    ((s.blank t []).head? = some d ∧ (s.blank t []).tail.head? = some e) =
      (t.head? = some d ∧ t.tail.head? = some e) := by
  cases t with
  | nil => rfl
  | cons c rest =>
    rcases blank_cons_cases hs hmode c rest with ⟨hnext, heq⟩ | ⟨hc, u, heq⟩
    · rw [heq]
      simp only [List.head?_cons, List.tail_cons, head?_blank (hs.next c rest) hnext he]
    · simp [heq, ne_of_opens hd hc, hd.1.symm]

theorem quoteRun_blank (t : Text) : Place.quoteRun (s.blank t []) = Place.quoteRun t := by
  induction t generalizing s with
  | nil => rfl
  | cons c rest ih =>
    rcases blank_cons_cases hs hmode c rest with ⟨hnext, heq⟩ | ⟨hc, u, heq⟩
    · rw [heq, quoteRun_cons, quoteRun_cons, ih (hs.next c rest) hnext]
    · rw [heq]
      rcases hc with rfl | rfl <;> rfl

theorem verbatimMark_blank (c : Char) (t : Text) :
    Place.verbatimMark (c :: s.blank t []) = Place.verbatimMark (c :: t) := by
  have hquote := head?_blank hs hmode (d := '"') (by decide) t
  have hdollar := tail_blank hs hmode (d := '$') (e := '"') (by decide) (by decide) t
  have hat := tail_blank hs hmode (d := '@') (e := '"') (by decide) (by decide) t
  simp only [verbatimMark_cons, hquote, hdollar, hat]

/-- Whatever follows, a character of code or a literal is read as before. -/
theorem step_blank (place : Place) (c : Char) (t : Text)
    (hopens : place.inLiteral = false → c = '/' → t.head? ≠ some '/')
    (hplace : place.inComment = false) : place.step c (s.blank t []) = place.step c t := by
  have hquote := head?_beq_blank hs hmode (d := '"') (by decide) t
  cases place with
  | code fresh =>
    have hline : (c == '/' && (s.blank t []).head? == some '/') =
        (c == '/' && t.head? == some '/') := by
      by_cases hc : c = '/'
      · have hnone : (s.blank t []).head? ≠ some '/' := fun h =>
          hopens rfl hc (slash_of_blank hs hmode h)
        rw [beq_eq_false_iff_ne.mpr hnone, beq_eq_false_iff_ne.mpr (hopens rfl hc)]
      · rw [beq_eq_false_iff_ne.mpr hc, Bool.false_and, Bool.false_and]
    have hblock := head?_beq_blank hs hmode (d := '*') (by decide) t
    have hquotes : Place.quoteRun ((c :: s.blank t []).drop (if c == '$' then 1 else 0)) =
        Place.quoteRun ((c :: t).drop (if c == '$' then 1 else 0)) := by
      by_cases hc : (c == '$') = true
      · rw [if_pos hc]
        exact quoteRun_blank hs hmode t
      · rw [if_neg hc, List.drop_zero, List.drop_zero, quoteRun_cons, quoteRun_cons,
          quoteRun_blank hs hmode]
    simp only [Place.step, Place.stepCode, hline, hblock, verbatimMark_blank hs hmode,
      opensString_cons, hquote, hquotes]
  | lineComment => cases hplace
  | blockComment fresh => cases hplace
  | quoted close => rfl
  | verbatim => simp only [Place.step, hquote]
  | raw quotes => simp only [Place.step, quoteRun_cons, quoteRun_blank hs hmode]

end Ahead

end Scan

/-! The two scans side by side. -/

/-- Where the blanked source is read while the source is read at a place: in the same literal, or
in code, where no less of the line is blank. -/
inductive Place.Follows : Place → Place → Prop where
  | literal {p : Place} (h : p.inLiteral = true) : Follows p p
  | code {fresh fresh' : Bool} (h : fresh = true → fresh' = true) :
    Follows (.code fresh) (.code fresh')
  | line {fresh' : Bool} : Follows .lineComment (.code fresh')
  | block {fresh fresh' : Bool} (h : fresh = true → fresh' = true) :
    Follows (.blockComment fresh) (.code fresh')

namespace Place.Follows

theorem refl {p : Place} (h : p.inComment = false) : p.Follows p := by
  cases p with
  | code fresh => exact .code id
  | lineComment => cases h
  | blockComment fresh => cases h
  | quoted close => exact .literal rfl
  | verbatim => exact .literal rfl
  | raw quotes => exact .literal rfl

theorem mono {p : Place} {fresh fresh' : Bool} (h : p.Follows (.code fresh))
    (hfresh : fresh = true → fresh' = true) : p.Follows (.code fresh') := by
  cases h with
  | literal h => cases h
  | code h => exact .code (hfresh ∘ h)
  | line => exact .line
  | block h => exact .block (hfresh ∘ h)

/-- Outside literals the blanked source is in code. -/
theorem exists_code {p p' : Place} (h : p.Follows p') (hp : p.inLiteral = false) :
    ∃ fresh, p' = .code fresh := by
  cases h with
  | literal h =>
    rw [h] at hp
    cases hp
  | code => exact ⟨_, rfl⟩
  | line => exact ⟨_, rfl⟩
  | block => exact ⟨_, rfl⟩

end Place.Follows

/-- How much of a line is blank matters to a `#` only. -/
theorem Place.follows_stepCode {fresh fresh' : Bool} (hfresh : fresh = true → fresh' = true)
    {c : Char} {t : Text} (hclear : (stepCode fresh' c t).1 ≠ .comment) :
    (stepCode fresh c t).1 = (stepCode fresh' c t).1 ∧
      (stepCode fresh c t).2.1 = (stepCode fresh' c t).2.1 ∧
      (stepCode fresh c t).2.2.Follows (stepCode fresh' c t).2.2 := by
  have hhash : (c == '#' && fresh) = (c == '#' && fresh') := by
    cases hc : c == '#' with
    | false => rfl
    | true =>
      cases fresh' with
      | false => simpa using hfresh
      | true => simp [stepCode, hc] at hclear
  simp only [stepCode, hhash] at hclear ⊢
  split
  · rename_i hopen
    simp [hopen] at hclear
  · rename_i hline
    split
    · rename_i hopen
      simp [hline, hopen] at hclear
    · split
      · exact ⟨rfl, rfl, .literal rfl⟩
      · split
        · split <;> split <;> exact ⟨rfl, rfl, .literal rfl⟩
        · split
          · exact ⟨rfl, rfl, .literal rfl⟩
          · refine ⟨rfl, rfl, .code fun h => ?_⟩
            simp only [Bool.or_eq_true, Bool.and_eq_true] at h ⊢
            exact h.imp id fun h => ⟨h.1, hfresh h.2⟩

namespace Scan

/-- A scan of the blanked source keeps beside one of the source. Within a comment it reads blanks,
and outside it reads the same. -/
structure Follows (s s' : Scan) : Prop where
  sane : s.Sane
  place : s.place.Follows s'.place
  within : s.mode = .comment → s'.held = 0
  outside : s.mode ≠ .comment → s'.held = s.held ∧ s'.mode = s.mode

theorem follows_start : start.Follows start :=
  ⟨sane_start, .code id, fun h => absurd h (by decide), fun _ => ⟨rfl, rfl⟩⟩

theorem held_of_next {s : Scan} {c : Char} {rest : Text}
    (h : (s.next c rest).mode ≠ s.mode) : s.held = 0 := by
  obtain ⟨place, held, mode⟩ := s
  cases held with
  | zero => rfl
  | succ held => exact absurd rfl h

/-- In code, blanks are read as what they are. -/
theorem after_blanks {s : Scan} {fresh : Bool} (hheld : s.held = 0) (hplace : s.place = .code fresh)
    {front : Text} (hfront : ∀ c ∈ front, isLayoutBlank c = true) (rest : Text) :
    (s.after front rest).held = 0 ∧
      (s.after front rest).place = .code (fresh || front.any (· == '\n')) ∧
      s.mask front rest = front := by
  induction front generalizing s fresh with
  | nil => exact ⟨hheld, by simpa [after] using hplace, rfl⟩
  | cons c front ih =>
    have hnext : s.next c (front ++ rest) = ⟨.code (c == '\n' || fresh), 0, .code⟩ := by
      simp only [next, hheld, hplace, Place.step, stepCode_blank (hfront c List.mem_cons_self)]
    obtain ⟨h1, h2, h3⟩ := ih (s := ⟨.code (c == '\n' || fresh), 0, .code⟩) rfl rfl
      fun d hd => hfront d (List.mem_cons_of_mem _ hd)
    refine ⟨by rw [after, hnext, h1], ?_, ?_⟩
    · rw [after, hnext, h2, List.any_cons, Bool.or_assoc, Bool.or_left_comm]
    · rw [mask, hnext, h3]
      rfl

theorem any_maskOne (c : Char) :
    (Text.maskOne c .comment).any (· == '\n') = (c == '\n') := by
  simp only [Text.maskOne]
  split
  · rename_i hc
    simp [hc]
  · rename_i hc
    rw [Bool.not_eq_true] at hc
    rw [hc, List.any_eq_false]
    intro d hd
    rw [(List.mem_replicate.mp hd).2]
    decide

/-- Where a scan stands after a character of a comment. -/
theorem follows_next {s : Scan} {fresh : Bool} (h : s.place.Follows (.code fresh)) {c : Char}
    {rest : Text} (hmode : (s.next c rest).mode = .comment) :
    (s.next c rest).place.Follows (.code (fresh || c == '\n')) := by
  obtain ⟨place, held, mode⟩ := s
  have hmore : fresh = true → (fresh || c == '\n') = true := fun h => by simp [h]
  cases held with
  | succ held => exact h.mono hmore
  | zero =>
    simp only [next] at hmode ⊢
    cases h with
    | literal h => cases h
    | @code fresh₀ _ h =>
      simp only [Place.step] at hmode ⊢
      rcases Place.stepCode_cases fresh₀ c rest with ⟨heq, -⟩ | ⟨heq, -⟩ | ⟨_, _, heq, -⟩ | heq
      all_goals rw [heq] at hmode ⊢
      · exact .line
      · exact .block (hmore ∘ h)
      · cases hmode
      · cases hmode
    | line =>
      simp only [Place.step]
      split
      · rename_i hc
        exact .code fun _ => by simp [hc]
      · exact .line
    | block h =>
      simp only [Place.step]
      split
      · exact .code (hmore ∘ h)
      · exact .block (hmore ∘ h)

namespace Follows

variable {s s' : Scan} (h : s.Follows s')
include h

/-- Where the source has a comment, the blanked source is in code and stays there. -/
theorem comment {c : Char} {rest : Text} (hmode : (s.next c rest).mode = .comment) (rest' : Text) :
    (s.next c rest).Follows (s'.after (Text.maskOne c .comment) rest') ∧
      s'.mask (Text.maskOne c .comment) rest' = Text.maskOne c .comment := by
  have hheld : s'.held = 0 := by
    by_cases hs : s.mode = .comment
    · exact h.within hs
    · rw [(h.outside hs).1, held_of_next (hmode ▸ Ne.symm hs)]
  have hplace : s.place.inLiteral = false := by
    rw [← Bool.not_eq_true]
    intro hliteral
    by_cases hs : s.mode = .comment
    · rw [h.sane.literal hliteral] at hs
      cases hs
    · have hnext := (Place.step_of_inLiteral hliteral c rest).1
      rw [next, held_of_next (hmode ▸ Ne.symm hs)] at hmode
      cases hmode.symm.trans hnext
  obtain ⟨fresh, hcode⟩ := h.place.exists_code hplace
  obtain ⟨h1, h2, h3⟩ := after_blanks hheld hcode (fun d hd => blank_of_mem_maskOne hd) rest'
  rw [any_maskOne] at h2
  exact ⟨⟨h.sane.next c rest, h2 ▸ follows_next (hcode ▸ h.place) hmode, fun _ => h1,
    fun hne => absurd hmode hne⟩, h3⟩

/-- Where the source has none, the blanked source is read alike, unless a comment begins there. -/
theorem other {c : Char} {t : Text} (hmode : (s.next c t).mode ≠ .comment)
    (hclear : (s'.next c ((s.next c t).blank t [])).mode ≠ .comment) :
    (s.next c t).Follows (s'.next c ((s.next c t).blank t [])) ∧
      (s'.next c ((s.next c t).blank t [])).mode = (s.next c t).mode := by
  have hsane := h.sane.next c t
  -- Outside comments a scan follows itself.
  have hself : (s.next c t).Follows (s.next c t) := by
    refine ⟨hsane, .refl ?_, fun hcomment => absurd hcomment hmode, fun _ => ⟨rfl, rfl⟩⟩
    rw [← Bool.not_eq_true]
    exact fun hplace => hmode (hsane.comment hplace)
  have hstep := fun place => step_blank hsane hmode place c t
  obtain ⟨place, held, mode⟩ := s
  obtain ⟨place', held', mode'⟩ := s'
  cases held with
  | succ held =>
    obtain ⟨hheld, hmode'⟩ := h.outside hmode
    obtain rfl : held' = held + 1 := hheld
    exact ⟨⟨hsane, h.place, fun hcomment => absurd hcomment hmode, fun _ => ⟨rfl, hmode'⟩⟩, hmode'⟩
  | zero =>
    obtain rfl : held' = 0 := by
      by_cases hs : mode = .comment
      · exact h.within hs
      · exact (h.outside hs).1
    have hplace := h.place
    simp only at hplace
    generalize hu : (next ⟨place, 0, mode⟩ c t).blank t [] = u at *
    cases hplace with
    | literal hliteral =>
      have heq : next ⟨place, 0, mode'⟩ c u = next ⟨place, 0, mode⟩ c t := by
        simp only [next]
        rw [hstep place (fun hno => absurd hliteral (by simp [hno]))
          (Place.not_inComment_of_inLiteral hliteral)]
      rw [heq]
      exact ⟨hself, rfl⟩
    | @code fresh fresh' hfresh =>
      have hopens : c = '/' → t.head? ≠ some '/' := by
        rintro rfl ht
        simp [next, Place.step, Place.stepCode, ht] at hmode
      have heq : next ⟨.code fresh', 0, mode'⟩ c u = next ⟨.code fresh', 0, mode'⟩ c t := by
        simp only [next]
        rw [hstep (.code fresh') (fun _ => hopens) rfl]
      rw [heq] at hclear ⊢
      obtain ⟨h1, h2, h3⟩ := Place.follows_stepCode hfresh hclear
      exact ⟨⟨hsane, h3, fun hcomment => absurd hcomment hmode, fun _ => ⟨h2.symm, h1.symm⟩⟩,
        h1.symm⟩
    | line => exact absurd rfl hmode
    | block hfresh =>
      refine absurd ?_ hmode
      simp only [next, Place.step]
      split <;> rfl

/-- Unless a comment begins in it, the blanked source has the masked form of the source. -/
theorem mask_blank {t : Text} (hclear : .comment ∉ s'.modes (s.blank t [])) :
    s'.mask (s.blank t []) [] = s.mask t [] := by
  induction t generalizing s s' with
  | nil => rfl
  | cons c t ih =>
    rw [blank, List.append_nil] at hclear ⊢
    rw [mask, List.append_nil]
    by_cases hmode : (s.next c t).mode = .comment
    · rw [hmode, Text.blankOne, if_pos rfl] at hclear ⊢
      obtain ⟨hnext, hmask⟩ := h.comment hmode ((s.next c t).blank t [])
      rw [mask_append, List.append_nil, hmask, ih hnext]
      rw [modes_append] at hclear
      exact fun hin => hclear (List.mem_append_right _ hin)
    · rw [Text.blankOne, if_neg hmode, List.singleton_append] at hclear ⊢
      rw [modes_cons, List.mem_cons, not_or] at hclear
      obtain ⟨hnext, heq⟩ := h.other hmode (Ne.symm hclear.1)
      rw [mask, List.append_nil, heq, ih hnext hclear.2]

end Follows

/-! What is blanked. -/

/-- Blanking keeps a part of a source in which no comment stands. -/
theorem blank_of_no_comment (s : Scan) {front rest : Text}
    (h : .comment ∉ (s.modes (front ++ rest)).take front.length) : s.blank front rest = front := by
  induction front generalizing s with
  | nil => rfl
  | cons c front ih =>
    rw [List.cons_append, modes_cons, List.length_cons, List.take_succ_cons, List.mem_cons,
      not_or] at h
    rw [blank, Text.blankOne, if_neg (Ne.symm h.1), ih _ h.2]
    rfl

theorem strip_blankOne_le (c : Char) (mode : Mode) :
    (Text.strip (Text.blankOne c mode)).length ≤ (Text.strip [c]).length := by
  unfold Text.blankOne
  split
  · rename_i hmode
    have hnil : Text.strip (Text.maskOne c .comment) = [] :=
      Text.strip_eq_nil_iff.mpr fun d hd => isWhite_of_isLayoutBlank (blank_of_mem_maskOne hd)
    rw [hmode, hnil]
    exact Nat.zero_le _
  · exact Nat.le_refl _

theorem strip_blank_le (s : Scan) (front rest : Text) :
    (Text.strip (s.blank front rest)).length ≤ (Text.strip front).length := by
  induction front generalizing s with
  | nil => exact Nat.le_refl _
  | cons c front ih =>
    have hone := strip_blankOne_le c (s.next c (front ++ rest)).mode
    rw [blank, Text.strip_append, List.length_append, ← List.singleton_append, Text.strip_append,
      List.length_append]
    exact Nat.add_le_add hone (ih _)

/-- A comment that begins in a part of a source takes more than white space away: the mark that
begins it. -/
theorem Sane.strip_blank_lt {s : Scan} (hs : s.Sane) (hmode : s.mode ≠ .comment)
    {front rest : Text} (h : .comment ∈ (s.modes (front ++ rest)).take front.length) :
    (Text.strip (s.blank front rest)).length < (Text.strip front).length := by
  induction front generalizing s with
  | nil => cases h
  | cons c front ih =>
    rw [List.cons_append, modes_cons, List.length_cons, List.take_succ_cons, List.mem_cons] at h
    rw [blank, Text.strip_append, List.length_append, ← List.singleton_append, Text.strip_append,
      List.length_append]
    by_cases hnext : (s.next c (front ++ rest)).mode = .comment
    · have hone : Text.strip (Text.blankOne c .comment) = [] ∧ Text.strip [c] = [c] := by
        rcases hs.opens_comment hmode hnext with rfl | rfl <;> decide
      have hrest := strip_blank_le (s.next c (front ++ rest)) front rest
      rw [hnext, hone.1, hone.2, List.length_nil, List.length_singleton]
      omega
    · have hrest := ih (hs.next c (front ++ rest)) hnext (h.resolve_left (Ne.symm hnext))
      rw [Text.blankOne, if_neg hnext]
      exact Nat.add_lt_add_left hrest _

end Scan

/-- A character that shows as more than a blank belongs to no comment. -/
theorem Scan.mode_ne_comment_of_cell {a u : Text} {c d : Char}
    (hd : (Text.mask (a ++ c :: u)).cells[a.size]? = some d) (hblank : isLayoutBlank d = false) :
    ((Scan.start.after a (c :: u)).next c u).mode ≠ .comment := by
  obtain ⟨mode, hmode, hcells⟩ := Text.getElem?_cells_mask a c u
  have hcell := hcells 0 (Char.utf8Size_pos c)
  rw [Nat.add_zero, hd] at hcell
  have hmodes := Scan.start.modes_append a (c :: u)
  rw [← Text.modes_eq, Scan.modes_cons] at hmodes
  have hlen : ((Text.modes (a ++ c :: u)).take a.length).length = a.length := by simp
  rw [hmodes, List.getElem?_append_right (Nat.le_of_eq hlen), hlen, Nat.sub_self] at hmode
  obtain rfl : _ = mode := Option.some.inj hmode
  intro hcomment
  rw [hcomment] at hcell
  rw [Option.some.inj hcell, Text.maskCell] at hblank
  split at hblank
  · rename_i hc
    rw [beq_iff_eq.mp hc] at hblank
    cases hblank
  · cases hblank

namespace Text

/-- The blanked source has the masked form of the source, unless blanking makes a `#` of the code
the first of its line. -/
theorem mask_blankComments {t : Text} (h : .comment ∉ t.blankComments.modes) :
    t.blankComments.mask = t.mask := by
  rw [Scan.blankComments_eq, modes_eq] at h
  rw [Scan.blankComments_eq, mask_eq_maskWith, mask_eq_maskWith, modes_eq, modes_eq,
    Scan.maskWith_modes, Scan.maskWith_modes, Scan.follows_start.mask_blank h]

@[simp] theorem size_blankComments (t : Text) : size t.blankComments = size t := by
  rw [Scan.blankComments_eq, Scan.size_blank]

theorem size_take_lt {t : Text} {k : Nat} (h : k < t.length) : size (t.take k) < size t := by
  have hsplit := congrArg size (List.take_append_drop k t)
  rw [size_append, List.drop_eq_getElem_cons h, size_cons] at hsplit
  have := Char.utf8Size_pos t[k]
  omega

/-- Whether a part of a source has a comment can be told from the scan that reaches it. -/
theorem hasComment_iff {a d b : Text} :
    HasComment (a ++ (d ++ b)) ⟨size a, size a + size d⟩ ↔
      .comment ∈ ((Scan.start.after a (d ++ b)).modes (d ++ b)).take d.length := by
  have hmodes := Scan.start.modes_append a (d ++ b)
  rw [← modes_eq] at hmodes
  have hlen : ((modes (a ++ (d ++ b))).take a.length).length = a.length := by simp
  -- A character begins where those before it end.
  have hsize : ∀ i, size ((a ++ (d ++ b)).take i) = size (a.take i) +
      (size (d.take (i - a.length)) + size (b.take (i - a.length - d.length))) := by
    intro i
    rw [List.take_append, List.take_append, size_append, size_append]
  constructor
  · rintro ⟨i, hi, hin⟩
    simp only [Range.contains, Bool.and_eq_true, decide_eq_true_eq, hsize] at hin
    have hle : a.length ≤ i := by
      refine Nat.le_of_not_lt fun hlt => ?_
      have := size_take_lt hlt
      have hzero : i - a.length = 0 := by omega
      simp only [hzero, Nat.zero_sub, List.take_zero, size_nil] at hin
      omega
    have hlt : i - a.length < d.length := by
      refine Nat.lt_of_not_le fun hge => ?_
      rw [List.take_of_length_le hle, List.take_of_length_le hge] at hin
      omega
    rw [hmodes, List.getElem?_append_right (by omega), hlen] at hi
    exact List.mem_of_getElem? ((List.getElem?_take_of_lt hlt).trans hi)
  · intro hin
    obtain ⟨k, hk⟩ := List.getElem?_of_mem hin
    have hlt : k < d.length := by
      have := (List.getElem?_eq_some_iff.mp hk).1
      rw [List.length_take] at this
      omega
    rw [List.getElem?_take_of_lt hlt] at hk
    refine ⟨a.length + k, ?_, ?_⟩
    · rw [hmodes, List.getElem?_append_right (by omega), hlen, Nat.add_sub_cancel_left, hk]
    · have := size_take_lt hlt
      have hzero : k - d.length = 0 := by omega
      simp only [Range.contains, Bool.and_eq_true, decide_eq_true_eq, hsize,
        Nat.add_sub_cancel_left, hzero, List.take_zero, size_nil,
        List.take_of_length_le (Nat.le_add_right a.length k)]
      omega

/-- A part of the blanked source is the part of the source with its comments blanked. -/
theorem exists_slice_blankComments {t : Text} {i j : Nat} (hi : isBoundary t i = true)
    (hj : isBoundary t j = true) (hij : i ≤ j) :
    ∃ a d b, t = a ++ (d ++ b) ∧ size a = i ∧ size a + size d = j ∧ slice t i j = d ∧
      slice t.blankComments i j = (Scan.start.after a (d ++ b)).blank d b := by
  obtain ⟨a, d, b, rfl, rfl, rfl⟩ := split_at_boundaries hi hj hij
  refine ⟨a, d, b, List.append_assoc .., rfl, rfl, slice_append a d b, ?_⟩
  rw [Scan.blankComments_eq, List.append_assoc, Scan.blank_append, Scan.blank_append,
    List.append_nil, ← List.append_assoc]
  have hsize := slice_append (Scan.start.blank a (d ++ b))
    ((Scan.start.after a (d ++ b)).blank d b)
    (((Scan.start.after a (d ++ b)).after d b).blank b [])
  simpa using hsize

end Text

end ClassRefactor
