import ClassRefactor.Proofs.Code.Word
import ClassRefactor.Proofs.Layout.Lead
import ClassRefactor.Tree.Render

/-!
# Modifiers

Modifiers are read back from the text that they are written as, and what is read as modifiers is
known words and blanks.
-/

namespace ClassRefactor.Code

theorem modifiersFrom_nil_start (known : List String) (a b pos : Nat) (cells : Code) :
    modifiersFrom known [] a pos cells = modifiersFrom known [] b pos cells := by
  cases cells with
  | nil => rfl
  | cons c rest => rfl

/-- Identifier cells are collected into a word. -/
theorem modifiersFrom_ident {known : List String} {w : Code} (hw : ∀ c ∈ w, isIdentCell c = true)
    {word : Code} (hword : word ≠ []) (wordStart pos : Nat) (rest : Code) :
    modifiersFrom known word wordStart pos (w ++ rest) =
      modifiersFrom known (w.reverse ++ word) wordStart (pos + w.length) rest := by
  induction w generalizing word pos with
  | nil => rfl
  | cons c w ih =>
    have hempty : word.isEmpty = false := by simpa using hword
    rw [List.cons_append, modifiersFrom, if_pos (hw c List.mem_cons_self), hempty,
      if_neg (by simp), ih (fun d hd => hw d (List.mem_cons_of_mem _ hd)) (by simp),
      List.reverse_cons, List.append_assoc, List.length_cons]
    congr 1
    omega

/-- A word at the front is collected. -/
theorem modifiersFrom_word {known : List String} {w : Code} (hw : ∀ c ∈ w, isIdentCell c = true)
    (hne : w ≠ []) (wordStart pos : Nat) (rest : Code) :
    modifiersFrom known [] wordStart pos (w ++ rest) =
      modifiersFrom known w.reverse pos (pos + w.length) rest := by
  cases w with
  | nil => exact absurd rfl hne
  | cons c w =>
    rw [List.cons_append, modifiersFrom, if_pos (hw c List.mem_cons_self),
      if_pos List.isEmpty_nil,
      modifiersFrom_ident (fun d hd => hw d (List.mem_cons_of_mem _ hd)) (by simp),
      List.reverse_cons, List.length_cons]
    congr 1
    omega

/-- A word that is no modifier ends the modifiers. -/
theorem modifiersFrom_unknown {known : List String} {w rest : Code}
    (hw : ∀ c ∈ w, isIdentCell c = true) (hne : w ≠ []) (hunknown : known? known w = none)
    (hrest : ∀ c, rest.head? = some c → isIdentCell c = false) (wordStart pos : Nat) :
    modifiersFrom known [] wordStart pos (w ++ rest) = ([], pos) := by
  have hempty : w.reverse.isEmpty = false := by simpa using hne
  rw [modifiersFrom_word hw hne]
  cases rest with
  | nil => simp [modifiersFrom, hne, hunknown]
  | cons c rest => simp [modifiersFrom, hrest c rfl, hne, hunknown]

/-- Words that are told apart as modifiers. -/
structure Known (known : List String) : Prop where
  ident : ∀ k ∈ known, k.toList ≠ [] ∧ ∀ c ∈ k.toList, isIdentCell c = true
  found : ∀ k ∈ known, known? known k.toList = some k

theorem known_memberModifiers : Known memberModifiers := ⟨by decide, by decide⟩

theorem known_parameterModifiers : Known parameterModifiers := ⟨by decide, by decide⟩

theorem known_typeModifiers : Known typeModifiers := ⟨by decide, by decide⟩

theorem renderModifiers_cons (m : String) (ms : List String) :
    (renderModifiers (m :: ms)).toList = m.toList ++ ' ' :: (renderModifiers ms).toList := by
  simp [renderModifiers, concat, String.toList_append]

theorem renderModifiers_append (ms ns : List String) :
    (renderModifiers (ms ++ ns)).toList =
      (renderModifiers ms).toList ++ (renderModifiers ns).toList := by
  induction ms with
  | nil => rfl
  | cons m ms ih =>
    rw [List.cons_append, renderModifiers_cons, renderModifiers_cons, ih, List.append_assoc]
    rfl

section

variable {known ms : List String} (hknown : Known known) (hms : ∀ m ∈ ms, m ∈ known)
include hknown hms

/-- Modifiers are read back from their text. -/
theorem Known.modifiersFrom {rest : Code}
    (hrest : ∀ wordStart pos, Code.modifiersFrom known [] wordStart pos rest = ([], pos))
    (wordStart pos : Nat) :
    Code.modifiersFrom known [] wordStart pos ((renderModifiers ms).toList ++ rest) =
      (ms, pos + (renderModifiers ms).toList.length) := by
  induction ms generalizing wordStart pos with
  | nil => simpa [renderModifiers, concat] using hrest wordStart pos
  | cons m ms ih =>
    have hm := hms m List.mem_cons_self
    obtain ⟨hne, hident⟩ := hknown.ident m hm
    rw [renderModifiers_cons, List.append_assoc, List.cons_append, modifiersFrom_word hident hne,
      Code.modifiersFrom]
    have hempty : m.toList.reverse.isEmpty = false := by simpa using hne
    have hspace : isIdentCell ' ' = false := by decide
    have hblank : isLayoutBlank ' ' = true := by decide
    simp only [hspace, Bool.false_eq_true, ↓reduceIte, hempty, List.reverse_reverse,
      hknown.found m hm, hblank]
    rw [ih fun n hn => hms n (List.mem_cons_of_mem _ hn)]
    simp only [Prod.mk.injEq, true_and, List.length_append, List.length_cons]
    omega

/-- Written modifiers are identifiers and spaces. -/
theorem Known.cells : ∀ c ∈ (renderModifiers ms).toList, isIdentCell c = true ∨ c = ' ' := by
  induction ms with
  | nil => simp [renderModifiers, concat]
  | cons m ms ih =>
    intro c hc
    rw [renderModifiers_cons, List.mem_append, List.mem_cons] at hc
    rcases hc with hc | hc | hc
    · exact .inl ((hknown.ident m (hms m List.mem_cons_self)).2 c hc)
    · exact .inr hc
    · exact ih (fun n hn => hms n (List.mem_cons_of_mem _ hn)) c hc

theorem Known.isInert : ∀ c ∈ (renderModifiers ms).toList, Code.isInert c = true := by
  intro c hc
  rcases hknown.cells hms c hc with hident | rfl
  · exact isInert_of_isIdentCell hident
  · decide

theorem Known.head {rest : Code} (hrest : ∃ c, rest.head? = some c ∧ isIdentCell c = true) :
    ∃ c, ((renderModifiers ms).toList ++ rest).head? = some c ∧ isIdentCell c = true := by
  cases ms with
  | nil => simpa [renderModifiers, concat] using hrest
  | cons m ms =>
    obtain ⟨hne, hident⟩ := hknown.ident m (hms m List.mem_cons_self)
    refine ⟨m.toList.head hne, ?_, hident _ (List.head_mem hne)⟩
    rw [renderModifiers_cons, List.append_assoc, List.head?_append, List.head?_eq_some_head hne]
    rfl

/-- No modifier declares another kind of member. -/
theorem Known.undeclared (hfree : ∀ k ∈ known, k ∉ declarationKeywords) {rest : Code}
    (hrest : Undeclared rest) : Undeclared ((renderModifiers ms).toList ++ rest) := by
  induction ms with
  | nil => simpa [renderModifiers, concat] using hrest
  | cons m ms ih =>
    have hm := hms m List.mem_cons_self
    rw [renderModifiers_cons, List.append_assoc, List.cons_append]
    refine Undeclared.split (by decide) ?_ (ih fun n hn => hms n (List.mem_cons_of_mem _ hn))
    refine undeclared_of_ident (hknown.ident m hm).2 fun k hk heq => hfree m hm ?_
    rwa [String.toList_inj.mp heq]

theorem Known.whole {rest : Code} (hrest : Whole rest) :
    Whole ((renderModifiers ms).toList ++ rest) := by
  induction ms with
  | nil => simpa [renderModifiers, concat] using hrest
  | cons m ms ih =>
    have hm := (hknown.ident m (hms m List.mem_cons_self)).2
    rw [renderModifiers_cons, List.append_assoc, List.cons_append]
    exact (whole_of_ident hm).append
      (ih fun n hn => hms n (List.mem_cons_of_mem _ hn)).space (.inl (by simp))

omit hknown hms in
/-- A space stands after the last modifier. -/
theorem last_renderModifiers {c : Char} (hc : (renderModifiers ms).toList.getLast? = some c) :
    c = ' ' := by
  induction ms with
  | nil => simp [renderModifiers, concat] at hc
  | cons m ms ih =>
    rw [renderModifiers_cons, List.getLast?_append_of_ne_nil _ (by simp)] at hc
    cases hlast : (renderModifiers ms).toList with
    | nil =>
      rw [hlast] at hc
      exact (Option.some.inj hc).symm
    | cons d rest =>
      rw [hlast, List.getLast?_cons_cons, ← hlast] at hc
      exact ih hc

end

/-! What is read as modifiers. -/

theorem mem_of_known? {known : List String} {word : Code} {m : String}
    (h : known? known word = some m) : m ∈ known :=
  List.mem_of_find?_eq_some h

/-- Code in two parts: words and blanks, and what begins with no blank. -/
def FrontBlanks (cells front rest : Code) : Prop :=
  cells = front ++ rest ∧ (∀ c ∈ front, isIdentCell c = true ∨ isLayoutBlank c = true) ∧
    ∀ c, rest.head? = some c → isLayoutBlank c = false

theorem frontBlanks_word {word : Code} (hword : ∀ c ∈ word, isIdentCell c = true) {rest : Code}
    (hrest : ∀ c, rest.head? = some c → isLayoutBlank c = false) :
    FrontBlanks (word ++ rest) word rest :=
  ⟨rfl, fun c hc => .inl (hword c hc), hrest⟩

theorem frontBlanks_nil {word : Code} (hword : ∀ c ∈ word, isIdentCell c = true)
    (hne : word ≠ []) (rest : Code) : FrontBlanks (word ++ rest) [] (word ++ rest) := by
  refine ⟨rfl, by simp, fun c hc => ?_⟩
  rw [List.head?_append_of_ne_nil _ hne] at hc
  exact isLayoutBlank_eq_false_of_isIdentCell (hword c (List.mem_of_mem_head? hc))

theorem FrontBlanks.after {cells front rest word : Code} {c : Char}
    (h : FrontBlanks cells front rest) (hword : ∀ c ∈ word, isIdentCell c = true)
    (hc : isLayoutBlank c = true) : FrontBlanks (word ++ c :: cells) (word ++ c :: front) rest := by
  obtain ⟨rfl, hfront, hrest⟩ := h
  refine ⟨by simp, fun d hd => ?_, hrest⟩
  rcases List.mem_append.mp hd with hd | hd
  · exact .inl (hword d hd)
  · rcases List.mem_cons.mp hd with rfl | hd
    · exact .inr hc
    · exact hfront d hd

/-- The cells that are read as modifiers are those of words and blanks, and what is left begins
with no blank. -/
theorem modifiersFrom_parts {known : List String} {word : Code} {wordStart pos : Nat}
    {cells : Code} (hword : ∀ c ∈ word, isIdentCell c = true)
    (hstart : word ≠ [] → wordStart + word.length = pos) :
    ∃ front rest, FrontBlanks (word.reverse ++ cells) front rest ∧
      (modifiersFrom known word wordStart pos cells).2 + word.length = pos + front.length ∧
      ∀ m ∈ (modifiersFrom known word wordStart pos cells).1, m ∈ known := by
  have reversed : ∀ {w : Code}, (∀ c ∈ w, isIdentCell c = true) →
      ∀ c ∈ w.reverse, isIdentCell c = true := fun h c hc => h c (List.mem_reverse.mp hc)
  induction cells generalizing word wordStart pos with
  | nil =>
    rw [modifiersFrom]
    split
    · rename_i hempty
      obtain rfl : word = [] := by simpa using hempty
      exact ⟨[], [], frontBlanks_word (reversed hword) (by simp), rfl, by simp⟩
    · rename_i hne
      have hne : word ≠ [] := by simpa using hne
      split
      · exact ⟨[], _, frontBlanks_nil (reversed hword) (by simpa using hne) [], hstart hne, by simp⟩
      · rename_i m hm
        exact ⟨word.reverse, [], frontBlanks_word (reversed hword) (by simp), by simp,
          by simpa using mem_of_known? hm⟩
  | cons c rest ih =>
    rw [modifiersFrom]
    split
    · rename_i hc
      have hstart' : (if word.isEmpty then pos else wordStart) + (c :: word).length = pos + 1 := by
        cases word with
        | nil => rfl
        | cons d word =>
          have := hstart (List.cons_ne_nil d word)
          simp only [List.isEmpty_cons, Bool.false_eq_true, if_false, List.length_cons] at *
          omega
      obtain ⟨front, left, hparts, hlen, hmem⟩ :=
        ih (by simpa using And.intro hc hword) fun _ => hstart'
      rw [List.reverse_cons, List.append_assoc] at hparts
      rw [List.length_cons] at hlen
      exact ⟨front, left, hparts, by omega, hmem⟩
    · split
      · rename_i hempty
        obtain rfl : word = [] := by simpa using hempty
        split
        · rename_i hblank
          obtain ⟨front, left, hparts, hlen, hmem⟩ := @ih [] pos (pos + 1) (by simp) (by simp)
          refine ⟨c :: front, left, FrontBlanks.after hparts (reversed hword) hblank, ?_, hmem⟩
          rw [List.length_cons, List.length_nil] at *
          omega
        · rename_i hblank
          exact ⟨[], c :: rest, frontBlanks_word (reversed hword) (by simpa using hblank), rfl, by simp⟩
      · rename_i hne
        have hne : word ≠ [] := by simpa using hne
        split
        · exact ⟨[], _, frontBlanks_nil (reversed hword) (by simpa using hne) _, hstart hne, by simp⟩
        · rename_i m hm
          split
          · rename_i hblank
            obtain ⟨front, left, hparts, hlen, hmem⟩ := @ih [] pos (pos + 1) (by simp) (by simp)
            refine ⟨word.reverse ++ c :: front, left, hparts.after (reversed hword) hblank, ?_, ?_⟩
            · simp only [List.length_append, List.length_reverse, List.length_cons,
                List.length_nil] at *
              omega
            · simpa using And.intro (mem_of_known? hm) hmem
          · rename_i hblank
            exact ⟨word.reverse, c :: rest, frontBlanks_word (reversed hword) (by simpa using hblank),
              by simp, by simpa using mem_of_known? hm⟩

end ClassRefactor.Code
