import ClassRefactor.Proofs.Edit.Apart

/-!
# Which edits can be normalized

Normalizing sorts the edits and looks at neighbours only. In the sorted list that is enough: if each
edit keeps clear of the one before it, it keeps clear of all before it. So edits are refused exactly
when two of them overlap.
-/

namespace ClassRefactor

theorem Range.isLE_order_iff {a b : Range} :
    (a.order b).isLE = true ↔ a.start < b.start ∨ a.start = b.start ∧ a.stop ≤ b.stop := by
  refine ⟨fun h => ?_, isLE_order⟩
  unfold order at h
  rcases Nat.lt_trichotomy a.start b.start with hlt | heq | hgt
  · exact .inl hlt
  · rw [Nat.compare_eq_eq.mpr heq, Ordering.eq_then, Nat.isLE_compare] at h
    exact .inr ⟨heq, h⟩
  · rw [Nat.compare_eq_gt.mpr hgt] at h
    cases h

theorem Range.isLE_order_trans {a b c : Range} (hab : (a.order b).isLE = true)
    (hbc : (b.order c).isLE = true) : (a.order c).isLE = true := by
  rw [isLE_order_iff] at *
  omega

theorem Range.isLE_order_total (a b : Range) : ((a.order b).isLE || (b.order a).isLE) = true := by
  rw [Bool.or_eq_true, isLE_order_iff, isLE_order_iff]
  omega

theorem TextEdit.positionLe_trans (a b c : TextEdit) (hab : positionLe a b = true)
    (hbc : positionLe b c = true) : positionLe a c = true :=
  Range.isLE_order_trans hab hbc

theorem TextEdit.positionLe_total (a b : TextEdit) : (positionLe a b || positionLe b a) = true :=
  Range.isLE_order_total a.range b.range

/-- Neither range takes anything of the other. -/
def Range.Beside (a b : Range) : Prop := a.stop ≤ b.start ∨ b.stop ≤ a.start

theorem Range.Beside.symm {a b : Range} (h : a.Beside b) : b.Beside a := Or.symm h

namespace TextEdit

theorem order_eq : order = compareLex (compareOn TextEdit.file)
    (compareLex (compareOn fun e => e.range.start) (compareOn fun e => e.range.stop)) := rfl

instance : Std.TransCmp order := by
  rw [order_eq]
  infer_instance

theorem isLE_order_total (a b : TextEdit) : ((a.order b).isLE || (b.order a).isLE) = true := by
  rw [@Std.OrientedCmp.eq_swap _ order _ a b]
  cases b.order a <;> rfl

theorem isLE_compare_file {a b : TextEdit} (h : (a.order b).isLE = true) :
    (compare a.file b.file).isLE = true := by
  unfold order at h
  cases hfile : compare a.file b.file with
  | lt => rfl
  | eq => rfl
  | gt =>
    rw [hfile] at h
    cases h

theorem isLE_order_range {a b : TextEdit} (h : (a.order b).isLE = true) (hfile : a.file = b.file) :
    a.range.start < b.range.start ∨ a.range.start = b.range.start ∧ a.range.stop ≤ b.range.stop := by
  unfold order at h
  rw [hfile, Std.compare_self, Ordering.eq_then] at h
  exact Range.isLE_order_iff.mp h

/-- An edit between two edits of one file is one of that file. -/
theorem file_eq_of_between {a b c : TextEdit} (hab : (a.order b).isLE = true)
    (hbc : (b.order c).isLE = true) (hfile : a.file = c.file) : a.file = b.file := by
  have h := isLE_compare_file hbc
  rw [← hfile] at h
  exact Std.LawfulEqCmp.eq_of_compare (Std.OrientedCmp.isLE_antisymm (isLE_compare_file hab) h)

/-- The first edit ends before the second one begins, unless they are of different files. -/
def Clears (a b : TextEdit) : Prop := a.file = b.file → a.range.stop ≤ b.range.start

/-- Edits in the order that normalizing puts them in. -/
def InOrder (edits : List TextEdit) : Prop :=
  (∀ e ∈ edits, e.range.start ≤ e.range.stop) ∧
    edits.Pairwise fun a b => (a.order b).isLE = true

theorem InOrder.tail {e : TextEdit} {edits : List TextEdit} (h : InOrder (e :: edits)) :
    InOrder edits :=
  ⟨fun f hf => h.1 f (List.mem_cons_of_mem _ hf), (List.pairwise_cons.mp h.2).2⟩

/-- What merging does with the next edit if all goes well: two insertions at one place are joined,
and of any other two edits the first one stays as it is. -/
theorem mergeFrom_cons_eq_ok {last e : TextEdit} {rest merged : List TextEdit}
    (h : mergeFrom last (e :: rest) = .ok merged) :
    (last.file = e.file ∧ last.range = e.range ∧ e.range.isEmpty = true ∧
      mergeFrom { last with replacement := last.replacement ++ e.replacement } rest = .ok merged) ∨
    ((last.file == e.file && last.range == e.range && e.range.isEmpty) = false ∧
      (last.file == e.file && decide (e.range.start < last.range.stop)) = false ∧
      ∃ m, mergeFrom e rest = .ok m ∧ merged = last :: m) := by
  unfold mergeFrom at h
  split at h
  · rename_i hjoin
    simp only [Bool.and_eq_true, beq_iff_eq] at hjoin
    exact .inl ⟨hjoin.1.1, hjoin.1.2, hjoin.2, h⟩
  · rename_i hjoin
    split at h
    · cases h
    · rename_i hoverlap
      cases hm : mergeFrom e rest with
      | error err =>
        rw [hm] at h
        cases h
      | ok m =>
        rw [hm] at h
        exact .inr ⟨by simpa using hjoin, by simpa using hoverlap, m, rfl,
          (Except.ok.inj h).symm⟩

/-- Merging fails at an edit that overlaps the one before it, or later. -/
theorem mergeFrom_cons_eq_error {last e : TextEdit} {rest : List TextEdit} {err : EditError}
    (h : mergeFrom last (e :: rest) = .error err) :
    (last.file = e.file ∧ last.range = e.range ∧
      mergeFrom { last with replacement := last.replacement ++ e.replacement } rest = .error err) ∨
    (last.file = e.file ∧ e.range.start < last.range.stop ∧
      err = .overlapping e.file last.range e.range) ∨
    mergeFrom e rest = .error err := by
  unfold mergeFrom at h
  split at h
  · rename_i hjoin
    simp only [Bool.and_eq_true, beq_iff_eq] at hjoin
    exact .inl ⟨hjoin.1.1, hjoin.1.2, h⟩
  · split at h
    · rename_i hoverlap
      simp only [Bool.and_eq_true, beq_iff_eq, decide_eq_true_eq] at hoverlap
      exact .inr (.inl ⟨hoverlap.1, hoverlap.2, (Except.error.inj h).symm⟩)
    · cases hm : mergeFrom e rest with
      | error err' =>
        rw [hm] at h
        rw [Except.error.inj h]
        exact .inr (.inr rfl)
      | ok m =>
        rw [hm] at h
        cases h

/-- Edits in order are merged exactly when each keeps clear of the later ones. The induction is on
the edits that are left; an insertion that is joined to the one before it leaves the range as it
was. -/
theorem exists_mergeFrom_iff {last : TextEdit} {edits : List TextEdit}
    (h : InOrder (last :: edits)) :
    (∃ merged, mergeFrom last edits = .ok merged) ↔ (last :: edits).Pairwise Clears := by
  induction edits generalizing last with
  | nil => simp [mergeFrom]
  | cons e rest ih =>
    obtain ⟨hfirst, -⟩ := List.pairwise_cons.mp h.2
    unfold mergeFrom
    split
    · rename_i hjoin
      simp only [Bool.and_eq_true, beq_iff_eq, Range.isEmpty] at hjoin
      obtain ⟨⟨hfile, hrange⟩, hempty⟩ := hjoin
      have horder : InOrder ({ last with replacement := last.replacement ++ e.replacement } :: rest) := by
        refine ⟨fun f hf => ?_, ?_⟩
        · rcases List.mem_cons.mp hf with rfl | hf
          · exact h.1 last List.mem_cons_self
          · exact h.tail.tail.1 f hf
        · refine List.pairwise_cons.mpr ⟨fun f hf => ?_, h.tail.tail.2⟩
          exact hfirst f (List.mem_cons_of_mem _ hf)
      rw [ih horder]
      simp only [List.pairwise_cons]
      constructor
      · rintro ⟨hlast, hrest⟩
        refine ⟨fun f hf => ?_, fun f hf => ?_, hrest⟩
        · rcases List.mem_cons.mp hf with rfl | hf
          · intro _
            rw [hrange]
            exact Nat.le_of_eq hempty.symm
          · exact hlast f hf
        · intro hf'
          rw [← hrange]
          exact hlast f hf (hfile.trans hf')
      · rintro ⟨hlast, -, hrest⟩
        exact ⟨fun f hf => hlast f (List.mem_cons_of_mem _ hf), hrest⟩
    · split
      · rename_i hoverlap
        simp only [Bool.and_eq_true, beq_iff_eq, decide_eq_true_eq] at hoverlap
        constructor
        · rintro ⟨merged, hmerged⟩
          cases hmerged
        · intro hclear
          have := (List.pairwise_cons.mp hclear).1 e List.mem_cons_self hoverlap.1
          omega
      · rename_i hclear
        simp only [Bool.and_eq_true, beq_iff_eq, decide_eq_true_eq, not_and, Nat.not_lt] at hclear
        have hmap : (∃ merged, (mergeFrom e rest).map (last :: ·) = .ok merged) ↔
            ∃ merged, mergeFrom e rest = .ok merged := by
          cases mergeFrom e rest <;> simp [Except.map]
        rw [hmap, ih h.tail, List.pairwise_cons (a := last)]
        refine ⟨fun hrest => ⟨fun f hf hfile => ?_, hrest⟩, fun hall => hall.2⟩
        rcases List.mem_cons.mp hf with rfl | hf'
        · exact hclear hfile
        · have hle := (List.pairwise_cons.mp h.tail.2).1 f hf'
          have hsame := file_eq_of_between (hfirst e List.mem_cons_self) hle hfile
          have := hclear hsame
          have := isLE_order_range hle (hsame.symm.trans hfile)
          omega

theorem exists_merge_iff {edits : List TextEdit} (h : InOrder edits) :
    (∃ merged, merge edits = .ok merged) ↔ edits.Pairwise Clears := by
  cases edits with
  | nil => simp [merge]
  | cons e rest => exact exists_mergeFrom_iff h

theorem dropRepeats_sublist (edits : List TextEdit) : (dropRepeats edits).Sublist edits := by
  induction edits with
  | nil => exact .refl _
  | cons e rest ih =>
    cases rest with
    | nil => exact .refl _
    | cons f rest =>
      unfold dropRepeats
      split
      · exact ih.cons e
      · exact ih.cons_cons e

theorem mem_dropRepeats {e : TextEdit} {edits : List TextEdit} : e ∈ dropRepeats edits ↔ e ∈ edits := by
  refine ⟨fun h => (dropRepeats_sublist edits).subset h, fun h => ?_⟩
  induction edits with
  | nil => cases h
  | cons f rest ih =>
    cases rest with
    | nil => exact h
    | cons g rest =>
      unfold dropRepeats
      split
      · rename_i heq
        rcases List.mem_cons.mp h with rfl | h
        · exact ih (eq_of_beq heq ▸ List.mem_cons_self)
        · exact ih h
      · rcases List.mem_cons.mp h with rfl | h
        · exact List.mem_cons_self
        · exact List.mem_cons_of_mem _ (ih h)

theorem mem_sorted {e : TextEdit} {edits : List TextEdit} : e ∈ sorted edits ↔ e ∈ edits := by
  rw [sorted, mem_dropRepeats]
  exact (List.mergeSort_perm ..).mem_iff

theorem inOrder_sorted {edits : List TextEdit} (h : ∀ e ∈ edits, e.range.start ≤ e.range.stop) :
    InOrder (sorted edits) := by
  refine ⟨fun e he => h e (mem_sorted.mp he), ?_⟩
  refine List.Pairwise.sublist (dropRepeats_sublist _) ?_
  exact List.pairwise_mergeSort (fun _ _ _ => Std.TransCmp.isLE_trans) isLE_order_total edits

end TextEdit

/-- Edits can be normalized exactly when, in order and without repeats, each keeps clear of the later
ones. -/
theorem WorkspaceEdit.exists_normalized_iff {edits : List TextEdit}
    (h : ∀ e ∈ edits, e.range.start ≤ e.range.stop) :
    (∃ w, normalized { edits } = .ok w) ↔ (TextEdit.sorted edits).Pairwise TextEdit.Clears := by
  rw [← TextEdit.exists_merge_iff (TextEdit.inOrder_sorted h), normalized]
  cases TextEdit.merge (TextEdit.sorted edits) <;> simp [Except.map]

namespace TextEdit

/-- Edits of which no two overlap can be normalized. -/
theorem exists_normalized_of_beside {edits : List TextEdit}
    (hordered : ∀ e ∈ edits, e.range.start ≤ e.range.stop)
    (h : edits.Pairwise fun a b => a.range.Beside b.range) :
    ∃ w, WorkspaceEdit.normalized { edits } = .ok w := by
  rw [WorkspaceEdit.exists_normalized_iff hordered]
  have hsorted := inOrder_sorted hordered
  have hbeside : (sorted edits).Pairwise fun a b => a.range.Beside b.range := by
    refine List.Pairwise.sublist (dropRepeats_sublist _) ?_
    exact ((List.mergeSort_perm ..).pairwise_iff Range.Beside.symm).mpr h
  refine (hsorted.2.and hbeside).imp_of_mem fun {a b} ha hb hab hfile => ?_
  have := isLE_order_range hab.1 hfile
  have := hsorted.1 a ha
  have := hsorted.1 b hb
  rcases hab.2 with hab | hba
  · exact hab
  · omega

/-- An edit that begins within another one of its file is refused. -/
theorem not_exists_normalized {edits : List TextEdit} {a b : TextEdit}
    (hordered : ∀ e ∈ edits, e.range.start ≤ e.range.stop) (ha : a ∈ edits) (hb : b ∈ edits)
    (hfile : a.file = b.file) (hstart : a.range.start < b.range.start)
    (hstop : b.range.start < a.range.stop) :
    ¬ ∃ w, WorkspaceEdit.normalized { edits } = .ok w := by
  rw [WorkspaceEdit.exists_normalized_iff hordered]
  intro hclears
  have hall : (sorted edits).Pairwise fun x y => (x.order y).isLE = true ∧ Clears x y :=
    (inOrder_sorted hordered).2.and hclears
  have hget := List.pairwise_iff_getElem.mp hall
  obtain ⟨i, hi, rfl⟩ := List.getElem_of_mem (mem_sorted.mpr ha)
  obtain ⟨j, hj, rfl⟩ := List.getElem_of_mem (mem_sorted.mpr hb)
  rcases Nat.lt_trichotomy i j with hij | rfl | hji
  · have := (hget i j hi hj hij).2 hfile
    omega
  · omega
  · have := isLE_order_range (hget j i hj hi hji).1 hfile.symm
    omega

/-- What merging refuses is an edit that begins before an earlier one of its file has ended. -/
theorem mergeFrom_eq_error {last : TextEdit} {edits : List TextEdit} {err : EditError}
    (h : mergeFrom last edits = .error err) :
    ∃ x y, [x, y].Sublist (last :: edits) ∧ x.file = y.file ∧ y.range.start < x.range.stop ∧
      err = .overlapping y.file x.range y.range := by
  induction edits generalizing last with
  | nil => cases h
  | cons e rest ih =>
    rcases mergeFrom_cons_eq_error h with
      ⟨hfile, hrange, hrest⟩ | ⟨hfile, hoverlap, rfl⟩ | hrest
    · obtain ⟨x, y, hsublist, hxy, hoverlap, rfl⟩ := ih hrest
      -- The edit that was joined to others stands for the first of them.
      rcases List.sublist_cons_iff.mp hsublist with hsublist | ⟨r, hr, hsublist⟩
      · exact ⟨x, y, (hsublist.cons e).cons last, hxy, hoverlap, rfl⟩
      · obtain ⟨rfl, rfl⟩ := List.cons.inj hr
        exact ⟨last, y, (hsublist.cons e).cons_cons last, hxy, hoverlap, rfl⟩
    · exact ⟨last, e, ((List.nil_sublist rest).cons_cons e).cons_cons last, hfile, hoverlap, rfl⟩
    · obtain ⟨x, y, hsublist, hxy⟩ := ih hrest
      exact ⟨x, y, hsublist.cons last, hxy⟩

/-- The only reason to refuse edits is that two of them, once they are in order, overlap. -/
theorem normalized_eq_error {edits : List TextEdit} {err : EditError}
    (h : WorkspaceEdit.normalized { edits } = .error err) :
    ∃ x y, [x, y].Sublist (sorted edits) ∧ x.file = y.file ∧ y.range.start < x.range.stop ∧
      err = .overlapping y.file x.range y.range := by
  have hmerge : merge (sorted edits) = .error err := by
    unfold WorkspaceEdit.normalized at h
    cases hm : merge (sorted edits) with
    | ok merged =>
      simp only [hm] at h
      cases h
    | error err' =>
      simp only [hm] at h
      rw [Except.error.inj h]
  cases hs : sorted edits with
  | nil =>
    rw [hs] at hmerge
    cases hmerge
  | cons first rest =>
    rw [hs] at hmerge
    exact mergeFrom_eq_error hmerge

end TextEdit

end ClassRefactor
