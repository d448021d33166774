import Mathlib.Data.List.TakeWhile
import ClassRefactor.Proofs.Code.Word
import ClassRefactor.Proofs.Code.Nest

/-!
# Segments with blanks between them

Code that is made of segments with blanks around them is cut into these segments. A segment of a
class body is a header with a `;` or with a block after it.
-/

namespace ClassRefactor

namespace Code

theorem window_eq_append {code l r : Code} {start stop : Nat}
    (h : code.window start stop = l ++ r) :
    code.Shows start l ∧ code.window (start + l.length) stop = r := by
  refine ⟨?_, ?_⟩
  · have hshows : code.Shows start (code.window start stop) := shows_window
    rw [h] at hshows
    exact (List.prefix_append l r).trans hshows
  · have hdrop := congrArg (List.drop l.length) h
    rw [List.drop_left, window, List.drop_take, List.drop_drop] at hdrop
    rw [window, ← hdrop]
    congr 1
    omega

theorem Shows.window_self {code part : Code} {s : Nat} (h : code.Shows s part) :
    code.window s (s + part.length) = part := by
  have := h.window (i := 0) (Nat.le_refl _)
  simpa [Code.window] using this

theorem Shows.append_left {code l r : Code} {s : Nat} (h : code.Shows s (l ++ r)) :
    code.Shows s l :=
  (List.prefix_append l r).trans h

theorem Shows.append_right {code l r : Code} {s : Nat} (h : code.Shows s (l ++ r)) :
    code.Shows (s + l.length) r := by
  obtain ⟨rest, hrest⟩ := h
  refine ⟨rest, ?_⟩
  rw [← List.drop_drop, ← hrest, List.append_assoc, List.drop_left]

/-- A piece of code that stands in a range. -/
structure Stands (code : Code) (r : Range) (m : Code) : Prop where
  shows : code.Shows r.start m
  stop : r.stop = r.start + m.length

theorem Stands.sealed {code m : Code} {r : Range} (h : Stands code r m)
    (hlast : ∃ c, m.getLast? = some c ∧ c ≠ '=') : code.Sealed r.stop := by
  intro heq
  obtain ⟨c, hc, hne⟩ := hlast
  have hpos : 0 < m.length := List.length_pos_iff.mpr (by rintro rfl; cases hc)
  rw [h.stop, show r.start + m.length - 1 = r.start + (m.length - 1) by omega,
    h.shows.getElem? (by omega), ← List.getLast?_eq_getElem?, hc] at heq
  exact absurd (Option.some.inj heq) hne

/-- Pieces with commas between them stand where they are spread out. -/
theorem stands_spread {code l : Code} {ls : List Code} {start : Nat}
    (h : code.Shows start (l ++ ls.flatMap (',' :: ·))) :
    List.Forall₂ (Stands code) (spread start (l :: ls)) (l :: ls) := by
  induction ls generalizing l start with
  | nil =>
    rw [List.flatMap_nil, List.append_nil] at h
    exact .cons ⟨h, rfl⟩ .nil
  | cons m ms ih =>
    refine .cons ⟨h.append_left, rfl⟩ (ih ?_)
    have hcomma : (m :: ms).flatMap (',' :: ·) = [','] ++ (m ++ ms.flatMap (',' :: ·)) := rfl
    rw [hcomma] at h
    exact h.append_right.append_right

/-- What follows a block does not carry it on as the block of an expression. -/
def Unassigned (rest : Code) : Prop :=
  ∀ c, (rest.dropWhile isLayoutBlank).head? = some c → c ≠ '='

theorem unassigned_blanks {b : Code} (hb : ∀ c ∈ b, isLayoutBlank c = true) : Unassigned b := by
  intro d hd
  rw [List.dropWhile_eq_nil_iff.mpr hb] at hd
  cases hd

theorem Unassigned.append {l r : Code} (hl : Unassigned l) (hr : Unassigned r) :
    Unassigned (l ++ r) := by
  intro d hd
  rw [List.dropWhile_append] at hd
  split at hd
  · exact hr d hd
  · rename_i hne
    rw [List.head?_append_of_ne_nil _ (by simpa using hne)] at hd
    exact hl d hd

theorem Unassigned.of_brace {r : Code} (h : r.head? = some '}') : Unassigned r := by
  obtain ⟨rest, rfl⟩ := List.head?_eq_some_iff.mp h
  intro e he
  rw [List.dropWhile_cons_of_neg (by decide)] at he
  rw [← Option.some.inj he]
  decide

theorem afterMemberBlock_ends {code : Code} {after stop : Nat}
    (h : Unassigned (code.window after stop)) (start : Nat) :
    code.afterMemberBlock start after stop = .ends := by
  rw [afterMemberBlock]
  refine if_neg fun hassign => ?_
  simp only [Bool.and_eq_true, decide_eq_true_eq, beq_iff_eq] at hassign
  obtain ⟨⟨hlt, heq⟩, -⟩ := hassign
  have hsplit : code.window after stop =
      (code.window after stop).takeWhile isLayoutBlank ++
        (code.window after stop).dropWhile isLayoutBlank := by simp
  have hnext := (window_eq_append hsplit).2
  simp only [skipBlanks, leading] at hlt heq
  refine h '=' ?_ rfl
  rwa [← hnext, List.head?_eq_getElem?, getElem?_window_of_lt (by omega), Nat.add_zero]

theorem assignFrom_of_not_mem {cells : Code} (h : '=' ∉ cells) (beyond : Option Char)
    (previous : Char) (depth : Nat) : assignFrom beyond previous depth cells = none := by
  induction cells generalizing previous depth with
  | nil => rfl
  | cons c rest ih =>
    simp only [List.mem_cons, not_or] at h
    rw [assignFrom, beq_eq_false_iff_ne.mpr (Ne.symm h.1), ih h.2]
    rfl

theorem assignment?_of_not_mem {code : Code} {start stop : Nat}
    (h : '=' ∉ code.window start stop) : code.assignment? start stop = none := by
  rw [assignment?, assignFrom_of_not_mem h]
  rfl

end Code

namespace Segment

/-- Segments one after another, with blanks before each and after the last. -/
inductive Spaced : List Code → Code → Prop
  | nil {b : Code} (hb : ∀ c ∈ b, isLayoutBlank c = true) : Spaced [] b
  | cons {b m t : Code} {ms : List Code} (hb : ∀ c ∈ b, isLayoutBlank c = true)
    (h : Spaced ms t) : Spaced (m :: ms) (b ++ m ++ t)

section

variable {code : Code} {rule : AfterBlock.Rule} {stop : Nat}

theorem rangesFrom_blanks {b : Code} (hb : ∀ c ∈ b, isLayoutBlank c = true) (pos : Nat)
    (rest : Code) :
    rangesFrom code rule stop {} pos (b ++ rest) =
      rangesFrom code rule stop {} (pos + b.length) rest := by
  induction b generalizing pos with
  | nil => rfl
  | cons c b ih =>
    rw [List.cons_append, rangesFrom, if_pos (by simp [hb c List.mem_cons_self]),
      ih fun d hd => hb d (List.mem_cons_of_mem _ hd), List.length_cons]
    congr 1
    omega

/-- A segment begins at its first cell. -/
theorem rangesFrom_begin {c : Char} (hc : isLayoutBlank c = false) (pos : Nat) (rest : Code) :
    rangesFrom code rule stop {} pos (c :: rest) =
      rangesFrom code rule stop { start := some pos } pos (c :: rest) := by
  rw [rangesFrom, rangesFrom]
  simp [hc, advance]

/-- A cell that opens and closes nothing. -/
def isFlat (c : Char) : Bool :=
  c != '(' && c != ')' && c != '[' && c != ']' && c != '{' && c != '}'

theorem isFlat_of_isInert {c : Char} (h : Code.isInert c = true) : isFlat c = true ∧ c ≠ ';' := by
  simp only [Code.isInert, Bool.and_eq_true, bne_iff_ne] at h
  simp [isFlat, h]

theorem isFlat_of_isLayoutBlank {c : Char} (h : isLayoutBlank c = true) :
    isFlat c = true ∧ c ≠ ';' :=
  isFlat_of_isInert (Code.isInert_of_isWhite (isWhite_of_isLayoutBlank h))

theorem isIdentCell_of_isLayoutBlank {c : Char} (h : isLayoutBlank c = true) :
    isIdentCell c = false := by
  rw [Bool.eq_false_iff]
  intro hident
  rw [isLayoutBlank_eq_false_of_isIdentCell hident] at h
  cases h

/-- Within a block a `;` ends nothing. -/
theorem rangesFrom_flat {s : State} {start : Nat} {l : Code} (hstart : s.start = some start)
    (hl : ∀ c ∈ l, isFlat c = true ∧ (c = ';' → s.braces ≠ 0)) (pos : Nat) (rest : Code) :
    rangesFrom code rule stop s pos (l ++ rest) =
      rangesFrom code rule stop s (pos + l.length) rest := by
  induction l generalizing pos with
  | nil => rfl
  | cons c l ih =>
    obtain ⟨hflat, hsemicolon⟩ := hl c List.mem_cons_self
    simp only [isFlat, Bool.and_eq_true, bne_iff_ne] at hflat
    have hadvance : advance code rule stop start s pos c = some s := by
      have hopen : (c == ';' && s.braces == 0 && s.parens == 0) = false := by
        rw [Bool.eq_false_iff]
        intro hend
        simp only [Bool.and_eq_true, beq_iff_eq] at hend
        exact hsemicolon hend.1.1 hend.1.2
      obtain ⟨s0, braces, parens, inExpression⟩ := s
      simp only at hstart hopen
      subst hstart
      simp [advance, hflat, hopen]
    rw [List.cons_append, rangesFrom, hstart]
    simp only [Option.isNone_some, Bool.false_and, Bool.false_eq_true, ↓reduceIte,
      Option.getD_some, hadvance]
    rw [ih fun d hd => hl d (List.mem_cons_of_mem _ hd), List.length_cons]
    congr 1
    omega

/-- Some cells are one segment where they stand, if no `=` follows. -/
def Cut (code : Code) (rule : AfterBlock.Rule) (stop : Nat) (m : Code) : Prop :=
  ∀ pos rest, code.window pos stop = m ++ rest → Code.Unassigned rest →
    rangesFrom code rule stop {} pos (m ++ rest) =
      ⟨pos, pos + m.length⟩ :: rangesFrom code rule stop {} (pos + m.length) rest

theorem Spaced.unassigned {ms : List Code} {t : Code}
    (hms : ∀ m ∈ ms, ∃ c, m.head? = some c ∧ isLayoutBlank c = false ∧ c ≠ '=')
    (h : Spaced ms t) : Code.Unassigned t := by
  cases h with
  | nil hb => exact Code.unassigned_blanks hb
  | @cons b m t ms hb h =>
    intro d hd
    obtain ⟨c, hc, hblank, hne⟩ := hms m List.mem_cons_self
    obtain ⟨m, rfl⟩ := List.head?_eq_some_iff.mp hc
    rw [List.append_assoc, List.dropWhile_append_of_pos hb, List.cons_append,
      List.dropWhile_cons_of_neg (by simp [hblank])] at hd
    rw [← Option.some.inj hd]
    exact hne

theorem Spaced.flat {ms : List Code} {t : Code} (h : Spaced ms t)
    (hms : ∀ m ∈ ms, ∀ c ∈ m, isFlat c = true) : ∀ c ∈ t, isFlat c = true := by
  induction h with
  | nil hb => exact fun c hc => (isFlat_of_isLayoutBlank (hb c hc)).1
  | @cons b m t ms hb h ih =>
    intro c hc
    simp only [List.mem_append] at hc
    rcases hc with (hc | hc) | hc
    · exact (isFlat_of_isLayoutBlank (hb c hc)).1
    · exact hms m List.mem_cons_self c hc
    · exact ih (fun n hn => hms n (List.mem_cons_of_mem _ hn)) c hc

theorem Spaced.undeclared {ms : List Code} {t : Code} (h : Spaced ms t)
    (hms : ∀ m ∈ ms, Code.Undeclared m ∧ ∃ c, m.getLast? = some c ∧ isIdentCell c = false) :
    Code.Undeclared t := by
  induction h with
  | nil hb => exact Code.undeclared_of_not_ident fun c hc => isIdentCell_of_isLayoutBlank (hb c hc)
  | @cons b m t ms hb h ih =>
    obtain ⟨hm, c, hlast, hident⟩ := hms m List.mem_cons_self
    have hfront : Code.Undeclared (b ++ m) :=
      (Code.undeclared_of_not_ident fun d hd => isIdentCell_of_isLayoutBlank (hb d hd)).append
        (.inl fun d hd => isIdentCell_of_isLayoutBlank (hb d (List.mem_of_getLast? hd))) hm
    refine hfront.append (Code.apart_of_last ?_ hident)
      (ih fun n hn => hms n (List.mem_cons_of_mem _ hn))
    rw [List.getLast?_append, hlast]
    rfl

/-- Code made of segments is cut into them. -/
theorem rangesFrom_spaced {ms : List Code} {t : Code} {pos : Nat} (h : Spaced ms t)
    (hms : ∀ m ∈ ms, ∃ c, m.head? = some c ∧ isLayoutBlank c = false ∧ c ≠ '=')
    (hcut : ∀ m ∈ ms, Cut code rule stop m) (hcells : code.window pos stop = t) :
    List.Forall₂ code.Stands (rangesFrom code rule stop {} pos t) ms := by
  induction h generalizing pos with
  | @nil b hb =>
    have hnone : rangesFrom code rule stop {} pos (b ++ []) = [] := rangesFrom_blanks hb pos []
    rw [List.append_nil] at hnone
    rw [hnone]
    exact .nil
  | @cons b m t ms hb h ih =>
    rw [List.append_assoc] at hcells ⊢
    obtain ⟨-, hafter⟩ := Code.window_eq_append hcells
    obtain ⟨hshows, hrest⟩ := Code.window_eq_append hafter
    have hlater := fun n hn => hms n (List.mem_cons_of_mem m hn)
    rw [rangesFrom_blanks hb, hcut m List.mem_cons_self _ _ hafter (h.unassigned hlater)]
    exact .cons ⟨hshows, rfl⟩
      (ih hlater (fun n hn => hcut n (List.mem_cons_of_mem _ hn)) hrest)

end

/-! Statements that end with their `;`. -/

theorem cut_simple {code w : Code} {rule : AfterBlock.Rule} {stop : Nat}
    (hhead : ∃ c, w.head? = some c ∧ isLayoutBlank c = false)
    (hw : ∀ c ∈ w, isFlat c = true ∧ c ≠ ';') : Cut code rule stop (w ++ [';']) := by
  intro pos rest _ _
  obtain ⟨c, hc, hblank⟩ := hhead
  obtain ⟨tail, rfl⟩ := List.head?_eq_some_iff.mp hc
  rw [List.append_assoc, List.cons_append, rangesFrom_begin hblank, ← List.cons_append,
    rangesFrom_flat rfl fun d hd => ⟨(hw d hd).1, fun heq => absurd heq (hw d hd).2⟩]
  simp [rangesFrom, advance, Nat.add_assoc]

/-! Members. -/

/-- What a member has in front of its `;` or its block. -/
structure Header (h : Code) : Prop where
  head : ∃ c, h.head? = some c ∧ isIdentCell c = true
  closed : Code.stackAfter [] h = some []
  undeclared : Code.Undeclared h

/-- What stands within the braces of a block. -/
structure Inner (i : Code) : Prop where
  flat : ∀ c ∈ i, isFlat c = true
  undeclared : Code.Undeclared i

theorem Inner.not_mem {i : Code} (h : Inner i) {c : Char} (hc : isFlat c = false) : c ∉ i := by
  intro hmem
  rw [h.flat c hmem] at hc
  cases hc

/-- A member as it is written. -/
inductive MemberText : Code → Prop
  | declared {h : Code} (hh : Header h) : MemberText (h ++ [';'])
  | block {h b i : Code} (hh : Header h) (hb : ∀ c ∈ b, isLayoutBlank c = true) (hi : Inner i) :
    MemberText (h ++ b ++ '{' :: (i ++ ['}']))

theorem rangesFrom_header {code h : Code} {rule : AfterBlock.Rule} {stop : Nat}
    (hhead : ∃ c, h.head? = some c ∧ isLayoutBlank c = false)
    (hclosed : Code.stackAfter [] h = some []) (pos : Nat) (rest : Code) :
    rangesFrom code rule stop {} pos (h ++ rest) =
      rangesFrom code rule stop { start := some pos } (pos + h.length) rest := by
  obtain ⟨c, hc, hblank⟩ := hhead
  obtain ⟨tail, rfl⟩ := List.head?_eq_some_iff.mp hc
  have hparens : ({ start := some pos } : State).parens = 0 + Code.openBrackets [] := rfl
  rw [List.cons_append, rangesFrom_begin hblank, ← List.cons_append,
    rangesFrom_nested hclosed rfl hparens]
  rfl

/-- A header with a block behind it is one segment. -/
theorem cut_block {code h b i : Code} {stop : Nat}
    (hhead : ∃ c, h.head? = some c ∧ isLayoutBlank c = false)
    (hclosed : Code.stackAfter [] h = some []) (hb : ∀ c ∈ b, isLayoutBlank c = true)
    (hi : ∀ c ∈ i, isFlat c = true) :
    Cut code code.afterMemberBlock stop (h ++ b ++ '{' :: (i ++ ['}'])) := by
  intro pos rest hcells hrest
  have hsplit : h ++ b ++ '{' :: (i ++ ['}']) ++ rest =
      h ++ (b ++ '{' :: (i ++ '}' :: rest)) := by simp
  have hno : '=' ∉ code.window pos (pos + h.length + b.length) := by
    have hwindow : code.window pos stop = (h ++ b) ++ ('{' :: (i ++ '}' :: rest)) := by
      rw [hcells]
      simp
    have hshown := (Code.window_eq_append hwindow).1.window_self
    rw [List.length_append, ← Nat.add_assoc] at hshown
    rw [hshown, List.mem_append, not_or]
    refine ⟨(Code.not_mem_of_stackAfter hclosed).2.2.2, fun hmem => ?_⟩
    exact absurd (hb _ hmem) (by decide)
  have hafter : Code.Unassigned (code.window (pos + h.length + b.length + 1 + i.length + 1)
      stop) := by
    have := (Code.window_eq_append hcells).2
    simp only [List.length_append, List.length_cons, List.length_nil] at this
    rw [show pos + h.length + b.length + 1 + i.length + 1 =
      pos + (h.length + b.length + (i.length + (0 + 1) + 1)) by omega, this]
    exact hrest
  rw [hsplit, rangesFrom_header hhead hclosed,
    rangesFrom_flat rfl fun c hc =>
      let hflat := isFlat_of_isLayoutBlank (hb c hc)
      ⟨hflat.1, fun heq => absurd heq hflat.2⟩,
    rangesFrom]
  have hopen : advance code code.afterMemberBlock stop pos { start := some pos }
      (pos + h.length + b.length) '{' = some { start := some pos, braces := 1 } := by
    simp [advance, Code.assignment?_of_not_mem hno]
  have hclose : advance code code.afterMemberBlock stop pos { start := some pos, braces := 1 }
      (pos + h.length + b.length + 1 + i.length) '}' = none := by
    simp [advance, Code.afterMemberBlock_ends hafter]
  simp only [Option.isNone_some, Bool.false_and, Bool.false_eq_true, ↓reduceIte,
    Option.getD_some, hopen]
  rw [rangesFrom_flat rfl fun c hc => ⟨hi c hc, fun _ => by simp⟩, rangesFrom]
  simp only [Option.isNone_some, Bool.false_and, Bool.false_eq_true, ↓reduceIte,
    Option.getD_some, hclose]
  have hlength : pos + (h ++ b ++ '{' :: (i ++ ['}'])).length =
      pos + h.length + b.length + 1 + i.length + 1 := by
    simp only [List.length_append, List.length_cons, List.length_nil]
    omega
  rw [hlength]

namespace MemberText

variable {m : Code} (h : MemberText m)
include h

theorem head : ∃ c, m.head? = some c ∧ isIdentCell c = true := by
  cases h with
  | declared hh =>
    obtain ⟨c, hc, hident⟩ := hh.head
    exact ⟨c, by rw [List.head?_append, hc]; rfl, hident⟩
  | block hh hb hi =>
    obtain ⟨c, hc, hident⟩ := hh.head
    exact ⟨c, by rw [List.append_assoc, List.head?_append, hc]; rfl, hident⟩

theorem length_lt : 1 < m.length := by
  cases h with
  | @declared h hh =>
    have hne : h ≠ [] := by
      rintro rfl
      obtain ⟨d, hd, -⟩ := hh.head
      cases hd
    have := List.length_pos_iff.mpr hne
    simp only [List.length_append, List.length_singleton]
    omega
  | block hh hb hi =>
    simp only [List.length_append, List.length_cons, List.length_nil]
    omega

theorem last : m.getLast? = some ';' ∨ m.getLast? = some '}' := by
  cases h with
  | declared hh => exact .inl (by simp)
  | @block h b i hh hb hi => exact .inr (by rw [List.getLast?_append]; simp [List.getLast?_cons])

theorem cut {code : Code} {stop : Nat} : Cut code code.afterMemberBlock stop m := by
  have hblank : ∀ {h : Code}, Header h → ∃ c, h.head? = some c ∧ isLayoutBlank c = false :=
    fun hh => hh.head.imp fun c hc => ⟨hc.1, isLayoutBlank_eq_false_of_isIdentCell hc.2⟩
  cases h with
  | @declared h hh =>
    intro pos rest _ _
    rw [List.append_assoc, rangesFrom_header (hblank hh) hh.closed]
    simp [rangesFrom, advance, Nat.add_assoc]
  | @block h b i hh hb hi => exact cut_block (hblank hh) hh.closed hb hi.flat

/-- A member closes the braces that it opens. -/
theorem closeFrom_brace (depth : Nat) (rest : Code) :
    Code.closeFrom '{' '}' depth (m ++ rest) =
      (Code.closeFrom '{' '}' depth rest).map (m.length + ·) := by
  cases h with
  | @declared h hh =>
    obtain ⟨hopen, hclose, -⟩ := Code.not_mem_of_stackAfter hh.closed
    exact Code.closeFrom_of_not_mem (by simp [hopen]) (by simp [hclose]) _ _
  | @block h b i hh hb hi =>
    obtain ⟨hopen, hclose, -⟩ := Code.not_mem_of_stackAfter hh.closed
    have hblank : ∀ {c : Char}, isLayoutBlank c = false → c ∉ b := by
      intro c hc hmem
      rw [hb c hmem] at hc
      cases hc
    have hsplit : h ++ b ++ '{' :: (i ++ ['}']) ++ rest =
        (h ++ b) ++ '{' :: (i ++ '}' :: rest) := by simp
    rw [hsplit, Code.closeFrom_of_not_mem (by simp [hopen, hblank (c := '{') rfl])
      (by simp [hclose, hblank (c := '}') rfl]), Code.closeFrom.eq_def]
    simp only [beq_self_eq_true, ↓reduceIte]
    rw [Code.closeFrom_of_not_mem (hi.not_mem rfl) (hi.not_mem rfl), Code.closeFrom.eq_def]
    simp only [show ('}' == '{') = false from rfl, beq_self_eq_true, ↓reduceIte,
      Bool.false_eq_true, Option.map_map]
    congr 1
    funext n
    simp only [Function.comp_apply, List.length_append, List.length_cons, List.length_nil]
    omega

theorem undeclared : Code.Undeclared m := by
  cases h with
  | declared hh => exact hh.undeclared.split (by decide) Code.undeclared_nil
  | @block h b i hh hb hi =>
    have hblank : ∀ c ∈ b, isIdentCell c = false := fun c hc =>
      isIdentCell_of_isLayoutBlank (hb c hc)
    have happart : Code.Apart h b := .inr fun c hc => hblank c (List.mem_of_mem_head? hc)
    exact (hh.undeclared.append happart (Code.undeclared_of_not_ident hblank)).split (by decide)
      (hi.undeclared.split (by decide) Code.undeclared_nil)

end MemberText

end Segment

end ClassRefactor
