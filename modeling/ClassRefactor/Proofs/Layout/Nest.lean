import ClassRefactor.Proofs.Code.Nest
import ClassRefactor.Proofs.Layout.Class
import ClassRefactor.Proofs.Layout.Local

/-!
# Nested delimiters in declarations

What the search for the body of a class and the search for the cell that decides the kind of a
member do with code in which all delimiters close.
-/

namespace ClassRefactor.Code

theorem classBodyFrom_nested {stack stack' : List Char} {l : Code}
    (h : stackAfter stack l = some stack') (depth pos : Nat) (rest : Code) :
    classBodyFrom (depth + openBrackets stack) pos (l ++ rest) =
      classBodyFrom (depth + openBrackets stack') (pos + l.length) rest := by
  induction l generalizing stack pos with
  | nil =>
    obtain rfl := Option.some.inj h
    rfl
  | cons c l ih =>
    obtain ⟨next, hpush, hnext⟩ := Option.bind_eq_some_iff.mp h
    have hstep : classBodyFrom (depth + openBrackets stack) pos (c :: (l ++ rest)) =
        classBodyFrom (depth + openBrackets next) (pos + 1) (l ++ rest) := by
      rcases push_cases hpush with ⟨rfl, rfl⟩ | ⟨rfl, rfl⟩ | ⟨rfl, rfl⟩ | ⟨rfl, rfl⟩ | ⟨rfl, rfl⟩ |
        ⟨rfl, rfl⟩ | ⟨hc, rfl⟩
      · simp [classBodyFrom, openBrackets, Nat.add_assoc, Nat.add_right_comm _ 1]
      · simp [classBodyFrom, openBrackets, Nat.add_assoc]
      · simp [classBodyFrom, openBrackets]
      · simp [classBodyFrom, openBrackets, Nat.add_right_comm _ 1, ← Nat.add_assoc]
      · simp [classBodyFrom, openBrackets, ← Nat.add_assoc]
      · simp [classBodyFrom, openBrackets]
      · simp only [isInert, Bool.and_eq_true, bne_iff_ne] at hc
        simp [classBodyFrom, hc]
    rw [List.cons_append, hstep, ih hnext, List.length_cons]
    congr 1
    omega

/-- The number of open type argument lists after some code, if no cell in it decides the kind of a
member. -/
def passAfter (angles : Nat) : Code → Option Nat
  | [] => some angles
  | c :: rest =>
    if c == '<' then passAfter (angles + 1) rest
    else if c == '>' then passAfter (angles - 1) rest
    else if angles == 0 && (c == '(' || c == '{' || c == ';' || c == '=') then none
    else passAfter angles rest

theorem deciderFrom_pass {code l : Code} {start stop angles angles' pos : Nat}
    (h : passAfter angles l = some angles') (rest : Code) :
    code.deciderFrom start stop angles 0 pos (l ++ rest) =
      code.deciderFrom start stop angles' 0 (pos + l.length) rest := by
  induction l generalizing angles pos with
  | nil =>
    obtain rfl := Option.some.inj h
    rfl
  | cons c l ih =>
    have hpos : pos + (c :: l).length = pos + 1 + l.length := by rw [List.length_cons]; omega
    rw [List.cons_append, hpos, deciderFrom]
    rw [passAfter] at h
    split at h
    · rename_i hc
      rw [if_pos hc]
      exact ih h
    · rename_i hless
      rw [if_neg hless]
      split at h
      · rename_i hc
        rw [if_pos hc]
        exact ih h
      · rename_i hgreater
        rw [if_neg hgreater]
        split at h
        · cases h
        · rename_i hc
          have htuple : ¬(c == '(' && angles == 0 && code.opensTuple start pos) = true := by
            intro htuple
            simp only [Bool.and_eq_true] at htuple
            exact hc (by simp [htuple.1.1, htuple.1.2])
          rw [if_neg htuple, if_neg hc]
          exact ih h

theorem passAfter_append (angles : Nat) (l r : Code) :
    passAfter angles (l ++ r) = (passAfter angles l).bind fun angles => passAfter angles r := by
  induction l generalizing angles with
  | nil => rfl
  | cons c l ih =>
    simp only [List.cons_append, passAfter, ih]
    split
    · rfl
    · split
      · rfl
      · split <;> rfl

theorem passAfter_of_isInert {l : Code} (h : ∀ c ∈ l, isInert c = true) (angles : Nat) :
    passAfter angles l = some angles := by
  induction l with
  | nil => rfl
  | cons c l ih =>
    have hc := h c List.mem_cons_self
    simp only [isInert, Bool.and_eq_true, bne_iff_ne] at hc
    rw [passAfter]
    simp [hc, ih fun d hd => h d (List.mem_cons_of_mem _ hd)]

/-- A parenthesis decides nothing inside a type argument list. -/
theorem passAfter_nested {stack stack' : List Char} {l : Code} {outer : Nat}
    (h : stackAfter stack l = some stack') (hparen : 0 < outer ∨ '(' ∉ l) :
    passAfter (outer + openAngles stack) l = some (outer + openAngles stack') := by
  induction l generalizing stack with
  | nil =>
    obtain rfl := Option.some.inj h
    rfl
  | cons c l ih =>
    obtain ⟨next, hpush, hnext⟩ := Option.bind_eq_some_iff.mp h
    have hih := ih hnext (hparen.imp_right fun hmem hl => hmem (List.mem_cons_of_mem _ hl))
    rw [passAfter]
    rcases push_cases hpush with ⟨rfl, rfl⟩ | ⟨rfl, rfl⟩ | ⟨rfl, rfl⟩ | ⟨rfl, rfl⟩ | ⟨rfl, rfl⟩ |
      ⟨rfl, rfl⟩ | ⟨hc, rfl⟩
    · have houter : outer ≠ 0 := by
        rcases hparen with h | h
        · omega
        · simp at h
      simp only [openAngles] at hih ⊢
      simpa [houter] using hih
    · simpa [openAngles] using hih
    · simpa [openAngles, Nat.add_assoc] using hih
    · simpa [openAngles] using hih
    · simpa [openAngles] using hih
    · simpa [openAngles, ← Nat.add_assoc] using hih
    · simp only [isInert, Bool.and_eq_true, bne_iff_ne] at hc
      simpa [hc] using hih

theorem passAfter_closed {l : Code} (h : stackAfter [] l = some []) (hparen : '(' ∉ l) :
    passAfter 0 l = some 0 := by
  have hpass : passAfter (0 + openAngles []) l = some (0 + openAngles []) :=
    passAfter_nested h (.inr hparen)
  exact hpass

end ClassRefactor.Code
