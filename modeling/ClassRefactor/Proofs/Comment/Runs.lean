import ClassRefactor.Proofs.Comment.Blanked

/-!
# The comments of a source

A comment of a source is a maximal run of characters that a scan takes for a comment, kept with the
offset at which it begins. Where a part of a source begins with a character of no comment, no run
reaches into it, so the comments of the source are those of its parts.
-/

namespace ClassRefactor

namespace Text

/-- The runs of comment among characters and their modes; `run` holds the run that `pos` stands in,
last character first. -/
def commentRunsFrom (run : Text) (pos : Nat) : List (Char × Mode) → List (Nat × Text)
  | [] => if run.isEmpty then [] else [(pos - size run, run.reverse)]
  | (c, mode) :: rest =>
    if mode = .comment then commentRunsFrom (c :: run) (pos + c.utf8Size) rest
    else if run.isEmpty then commentRunsFrom [] (pos + c.utf8Size) rest
    else (pos - size run, run.reverse) :: commentRunsFrom [] (pos + c.utf8Size) rest

/-- The comments of a source with the offsets at which they begin. -/
def commentRuns (t : Text) : List (Nat × Text) := commentRunsFrom [] 0 (t.zip (modes t))

/-- The comments of a source that do not begin in a range. -/
def commentsOutside (t : Text) (r : Range) : List (Nat × Text) :=
  t.commentRuns.filter fun run => !r.contains run.1

/-- Whether some texts stand in a text one behind the other, in their order. -/
def HoldsInOrder : Text → List Text → Prop
  | _, [] => True
  | t, p :: ps => ∃ a b, t = a ++ (p ++ b) ∧ HoldsInOrder b ps

theorem HoldsInOrder.append_left {t : Text} {ps : List Text} (h : t.HoldsInOrder ps) (s : Text) :
    HoldsInOrder (s ++ t) ps := by
  cases ps with
  | nil => trivial
  | cons p ps =>
    obtain ⟨a, b, rfl, hb⟩ := h
    exact ⟨s ++ a, b, (List.append_assoc s a (p ++ b)).symm, hb⟩

theorem HoldsInOrder.append {s t : Text} {ps qs : List Text} (hs : s.HoldsInOrder ps)
    (ht : t.HoldsInOrder qs) : HoldsInOrder (s ++ t) (ps ++ qs) := by
  induction ps generalizing s with
  | nil => exact ht.append_left s
  | cons p ps ih =>
    obtain ⟨a, b, rfl, hb⟩ := hs
    exact ⟨a, b ++ t, by simp only [List.append_assoc], ih hb⟩

section

variable {run : Text} {pos : Nat} {cs : List (Char × Mode)}

theorem commentRunsFrom_append {ds : List (Char × Mode)}
    (h : ∀ x, ds.head? = some x → x.2 ≠ .comment) :
    commentRunsFrom run pos (cs ++ ds) = commentRunsFrom run pos cs ++
      commentRunsFrom [] (pos + size (cs.map Prod.fst)) ds := by
  induction cs generalizing run pos with
  | nil =>
    cases ds with
    | nil => simp [commentRunsFrom]
    | cons d ds =>
      have hd := h d rfl
      simp only [List.nil_append, List.map_nil, size_nil, Nat.add_zero, commentRunsFrom, hd,
        if_false]
      split <;> simp
  | cons c cs ih =>
    have hpos : pos + size ((c :: cs).map Prod.fst) =
        pos + c.1.utf8Size + size (cs.map Prod.fst) := by
      rw [List.map_cons, size_cons, Nat.add_assoc]
    rw [hpos]
    simp only [List.cons_append, commentRunsFrom, ih]
    split
    · rfl
    · split <;> rfl

/-- A run begins where its first character stands. -/
theorem commentRunsFrom_within (hrun : size run ≤ pos) :
    ∀ x ∈ commentRunsFrom run pos cs,
      pos - size run ≤ x.1 ∧ x.1 < pos + size (cs.map Prod.fst) := by
  have hpositive : run.isEmpty = false → 0 < size run := by
    rw [isEmpty_eq, beq_eq_false_iff_ne]
    exact Nat.pos_of_ne_zero
  induction cs generalizing run pos with
  | nil =>
    intro x hx
    simp only [commentRunsFrom] at hx
    split at hx
    · cases hx
    · rename_i hne
      have := hpositive (by simpa using hne)
      obtain rfl := List.mem_singleton.mp hx
      simp only [List.map_nil, size_nil]
      omega
  | cons c cs ih =>
    obtain ⟨c, mode⟩ := c
    have hc := Char.utf8Size_pos c
    have hrest := @ih [] (pos + c.utf8Size) (Nat.zero_le _) (by simp)
    simp only [size_nil, Nat.sub_zero] at hrest
    intro x hx
    simp only [commentRunsFrom] at hx
    simp only [List.map_cons, size_cons]
    split at hx
    · have := @ih (c :: run) (pos + c.utf8Size) (by simp only [size_cons]; omega)
        (fun _ => by simp only [size_cons]; omega) x hx
      simp only [size_cons] at this
      omega
    · split at hx
      · have := hrest x hx
        omega
      · rename_i hne
        have := hpositive (by simpa using hne)
        rcases List.mem_cons.mp hx with rfl | hx
        · simp only
          omega
        · have := hrest x hx
          omega

/-- There is no run exactly if there is no comment. -/
theorem commentRunsFrom_eq_nil_iff :
    commentRunsFrom run pos cs = [] ↔ run = [] ∧ .comment ∉ cs.map Prod.snd := by
  induction cs generalizing run pos with
  | nil => simp [commentRunsFrom]
  | cons c cs ih =>
    obtain ⟨c, mode⟩ := c
    simp only [commentRunsFrom, List.map_cons, List.mem_cons, not_or]
    split
    · rename_i hmode
      simp [ih, hmode]
    · rename_i hmode
      split
      · rename_i hempty
        rw [ih]
        simp [List.isEmpty_iff.mp hempty, Ne.symm hmode]
      · rename_i hne
        simp [List.isEmpty_iff] at hne
        simp [hne]

/-- The runs stand in the text, in their order. -/
theorem holdsInOrder_commentRunsFrom :
    HoldsInOrder (run.reverse ++ cs.map Prod.fst) ((commentRunsFrom run pos cs).map Prod.snd) := by
  induction cs generalizing run pos with
  | nil =>
    simp only [commentRunsFrom]
    split
    · trivial
    · exact ⟨[], [], by simp, trivial⟩
  | cons c cs ih =>
    obtain ⟨c, mode⟩ := c
    simp only [commentRunsFrom, List.map_cons]
    split
    · simpa using @ih (c :: run) (pos + c.utf8Size)
    · have hrest := HoldsInOrder.append_left (@ih [] (pos + c.utf8Size)) [c]
      split
      · exact hrest.append_left run.reverse
      · exact ⟨[], _, rfl, hrest⟩

/-- Where a text stands has no influence on the texts of its runs. -/
theorem commentRunsFrom_move (pos' : Nat) :
    (commentRunsFrom run pos cs).map Prod.snd = (commentRunsFrom run pos' cs).map Prod.snd := by
  induction cs generalizing run pos pos' with
  | nil =>
    simp only [commentRunsFrom]
    split <;> rfl
  | cons c cs ih =>
    simp only [commentRunsFrom]
    split
    · exact ih _
    · split
      · exact ih _
      · rw [List.map_cons, List.map_cons, ih]

end

end Text

end ClassRefactor
