import ClassRefactor.Proofs.Edit.Normal

/-!
# Normalizing in place

In place, the edits are sorted where they are, moved out of the list all at once, and merged one
after another; the list gets them back when all are merged. An overlap ends the loop before that, and
leaves the list as moving the edits out has left it. So a failure is not without trace: it empties
the list.
-/

namespace ClassRefactor

namespace WorkspaceEdit

/-- The loop over the edits that were moved out. Each is joined to the last of those merged before
it, refused, or put behind it. -/
def mergeMoved (merged : List TextEdit) :
    List TextEdit → ExceptT EditError (StateM WorkspaceEdit) (List TextEdit)
  | [] => return merged
  | e :: rest =>
    match merged.getLast? with
    | none => mergeMoved [e] rest
    | some last =>
      if last.file == e.file && last.range == e.range && e.range.isEmpty then
        mergeMoved (merged.dropLast ++
          [{ last with replacement := last.replacement ++ e.replacement }]) rest
      else if last.file == e.file && e.range.start < last.range.stop then
        throw (.overlapping e.file last.range e.range)
      else mergeMoved (merged ++ [e]) rest

/-- Normalizes the edits that are held, step by step. -/
def normalizing : ExceptT EditError (StateM WorkspaceEdit) Unit := do
  modify fun w => { edits := w.edits.mergeSort fun a b => (a.order b).isLE }
  modify fun w => { edits := TextEdit.dropRepeats w.edits }
  let moved ← modifyGet fun w => (w.edits, { edits := [] })
  let merged ← mergeMoved [] moved
  set ({ edits := merged } : WorkspaceEdit)

/-- The verdict of normalizing step by step, and what is held afterwards. -/
def inPlace (w : WorkspaceEdit) : Except EditError Unit × WorkspaceEdit := normalizing.run.run w

/-- The loop does not touch what is held, and comes to what merging the rest onto the last edit comes
to. -/
theorem run_mergeMoved (front : List TextEdit) (last : TextEdit) (rest : List TextEdit)
    (w : WorkspaceEdit) :
    (mergeMoved (front ++ [last]) rest).run.run w =
      ((TextEdit.mergeFrom last rest).map (front ++ ·), w) := by
  induction rest generalizing front last with
  | nil => rfl
  | cons e rest ih =>
    rw [mergeMoved, List.getLast?_concat, List.dropLast_concat, TextEdit.mergeFrom]
    simp only
    split
    · exact ih front _
    · split
      · rfl
      · rw [ih (front ++ [last]) e]
        cases TextEdit.mergeFrom e rest <;> simp [Except.map]

theorem run_mergeMoved_nil (moved : List TextEdit) (w : WorkspaceEdit) :
    (mergeMoved [] moved).run.run w = (TextEdit.merge moved, w) := by
  cases moved with
  | nil => rfl
  | cons e rest =>
    have hfirst : mergeMoved [] (e :: rest) = mergeMoved ([] ++ [e]) rest := rfl
    rw [hfirst, run_mergeMoved, TextEdit.merge]
    cases TextEdit.mergeFrom e rest <;> rfl

/-- Steps one after another: a failure keeps what is held when it comes. -/
theorem run_bind {α β : Type} (x : ExceptT EditError (StateM WorkspaceEdit) α)
    (f : α → ExceptT EditError (StateM WorkspaceEdit) β) (w : WorkspaceEdit) :
    (x >>= f).run.run w =
      match x.run.run w with
      | (.ok a, held) => (f a).run.run held
      | (.error err, held) => (.error err, held) := by
  rw [ExceptT.run_bind, StateT.run_bind]
  show (match x.run.run w with | (r, held) => _) = _
  rcases x.run.run w with ⟨r, held⟩
  cases r <;> rfl

theorem run_modify (f : WorkspaceEdit → WorkspaceEdit) (w : WorkspaceEdit) :
    (modify f : ExceptT EditError (StateM WorkspaceEdit) Unit).run.run w = (.ok (), f w) := rfl

theorem run_modifyGet {α : Type} (f : WorkspaceEdit → α × WorkspaceEdit) (w : WorkspaceEdit) :
    (modifyGet f : ExceptT EditError (StateM WorkspaceEdit) α).run.run w =
      (.ok (f w).1, (f w).2) := rfl

theorem run_set (held w : WorkspaceEdit) :
    (set held : ExceptT EditError (StateM WorkspaceEdit) Unit).run.run w = (.ok (), held) := rfl

/-- Step by step the edits come to what normalizing makes of them at once. -/
theorem inPlace_eq_normalize (w : WorkspaceEdit) : w.inPlace = w.normalize := by
  have hsorted : TextEdit.dropRepeats (w.edits.mergeSort fun a b => (a.order b).isLE) =
      TextEdit.sorted w.edits := rfl
  simp only [inPlace, normalizing, run_bind, run_modify, run_modifyGet, run_mergeMoved_nil, run_set,
    hsorted]
  rw [normalize, normalized]
  cases TextEdit.merge (TextEdit.sorted w.edits) <;> rfl

/-- Edits that are merged are not lost. -/
theorem normalized_eq_nil_iff {w n : WorkspaceEdit} (h : w.normalized = .ok n) :
    n.edits = [] ↔ w.edits = [] := by
  have hnil : ∀ w : WorkspaceEdit, w.edits = [] ↔ ∀ file, ¬ w.Touches file := by
    intro w
    simp [Touches, List.eq_nil_iff_forall_not_mem]
  simp only [hnil, touches_normalized h]

/-- A normalization that fails loses every edit. In place or at once, it fails exactly if it leaves a
list empty that was not, and it does so only for two edits of one file of which the later one begins
within the earlier. -/
theorem normalize_loses_all (w : WorkspaceEdit) :
    w.inPlace = w.normalize ∧
    ((∃ err, w.normalize.1 = .error err) ↔ w.edits ≠ [] ∧ w.normalize.2.edits = []) ∧
    ∀ err, w.normalize.1 = .error err →
      ∃ x y, [x, y].Sublist (TextEdit.sorted w.edits) ∧ x.file = y.file ∧
        y.range.start < x.range.stop ∧ err = .overlapping y.file x.range y.range := by
  simp only [normalize_eq_error_iff]
  refine ⟨inPlace_eq_normalize w, ?_, fun err => TextEdit.normalized_eq_error⟩
  cases hn : w.normalized with
  | ok n =>
    have hkept : w.normalize = (.ok (), n) := normalize_eq_ok_iff.mpr hn
    simp [hkept, normalized_eq_nil_iff hn]
  | error err =>
    have hlost : w.normalize = (.error err, {}) := by rw [normalize, hn]
    have hne : w.edits ≠ [] := by
      intro hnil
      simp [normalized, hnil, TextEdit.sorted, TextEdit.dropRepeats, TextEdit.merge,
        Except.map] at hn
    simp [hlost, hne]

/-- Two replacements of which the second begins within the first. -/
def overlappingEdits : WorkspaceEdit := ⟨[⟨"C.cs", ⟨0, 3⟩, "x"⟩, ⟨"C.cs", ⟨2, 4⟩, "y"⟩]⟩

theorem normalize_empties_overlappingEdits :
    overlappingEdits.normalize = (.error (.overlapping "C.cs" ⟨0, 3⟩ ⟨2, 4⟩), ⟨[]⟩) ∧
      ¬ ∀ e ∈ overlappingEdits.edits, e ∈ overlappingEdits.normalize.2.edits := by
  have h : overlappingEdits.normalize = (.error (.overlapping "C.cs" ⟨0, 3⟩ ⟨2, 4⟩), ⟨[]⟩) := by
    rw [normalize, normalized, TextEdit.sorted, List.mergeSort_of_pairwise (by decide +kernel)]
    rfl
  refine ⟨h, fun hkept => ?_⟩
  rw [h] at hkept
  exact absurd (hkept ⟨"C.cs", ⟨0, 3⟩, "x"⟩ List.mem_cons_self) (by simp)

end WorkspaceEdit

end ClassRefactor
