import ClassRefactor.Proofs.Edit.Normal
import ClassRefactor.Proofs.Edit.Simultaneous

/-!
# What normalizing keeps

Normalizing refuses edits of which two overlap, and of all others it joins the insertions at one
place and leaves the rest alone. To put in a joined insertion is to put in its parts, so normalized
edits do to each file what the sorted edits do.
-/

namespace ClassRefactor

namespace TextEdit

/-- Two insertions at one place, put in one after another or as one. -/
theorem applyTo_joined {e f : TextEdit} (hfile : e.file = f.file) (hrange : e.range = f.range)
    (hempty : f.range.isEmpty = true) (t : Text) :
    (f.applyTo t).bind e.applyTo =
      applyTo { e with replacement := e.replacement ++ f.replacement } t := by
  by_cases hlands : f.Lands t
  · have hstop : f.range.stop = f.range.start := (beq_iff_eq.mp hempty).symm
    obtain ⟨a, c, rfl, hsize⟩ := Text.isBoundary_iff.mp hlands.start
    have put : ∀ (g : TextEdit) (c : Text), g.range = f.range →
        g.applyTo (a ++ c) = .ok (a ++ g.replacement.toList ++ c) := by
      intro g c hg
      have hinsert := g.applyTo_append (a := a) (b := []) (c := c) (by rw [hg, hsize])
        (by rw [hg, hstop, hsize, Text.size_nil, Nat.add_zero])
      rwa [List.append_nil] at hinsert
    rw [put f c rfl, put { e with replacement := e.replacement ++ f.replacement } c hrange]
    simp only [Except.bind]
    rw [List.append_assoc, put e _ hrange]
    simp
  · have hjoined : ¬ Lands t { e with replacement := e.replacement ++ f.replacement } := by
      rintro ⟨hwithin, hstart, hstop⟩
      rw [hrange] at hwithin hstart hstop
      exact hlands ⟨hwithin, hstart, hstop⟩
    rw [applyTo_of_not_lands hlands, applyTo_of_not_lands hjoined, hfile, hrange]
    rfl

/-- Merged edits do to a text what the edits do that were merged. -/
theorem applyFromLast_mergeFrom {last : TextEdit} {edits merged : List TextEdit}
    (h : mergeFrom last edits = .ok merged) (t : Text) :
    t.applyFromLast merged = t.applyFromLast (last :: edits) := by
  induction edits generalizing last merged with
  | nil => rw [← Except.ok.inj h]
  | cons e rest ih =>
    rcases mergeFrom_cons_eq_ok h with
      ⟨hfile, hrange, hempty, hjoined⟩ | ⟨-, -, m, hm, rfl⟩
    · rw [ih hjoined]
      simp only [Text.applyFromLast_cons]
      cases t.applyFromLast rest with
      | error err => rfl
      | ok out => exact (applyTo_joined hfile hrange hempty out).symm
    · rw [Text.applyFromLast_cons, ih hm, Text.applyFromLast_cons t last]

theorem applyFromLast_merge {edits merged : List TextEdit} (h : merge edits = .ok merged)
    (t : Text) : t.applyFromLast merged = t.applyFromLast edits := by
  cases edits with
  | nil => rw [← Except.ok.inj h]
  | cons e rest => exact applyFromLast_mergeFrom h t

/-- Every merged edit stands where some edit stood. -/
theorem exists_range_mergeFrom {last a : TextEdit} {edits merged : List TextEdit}
    (h : mergeFrom last edits = .ok merged) (ha : a ∈ merged) :
    ∃ e ∈ last :: edits, a.range = e.range := by
  induction edits generalizing last merged with
  | nil =>
    rw [← Except.ok.inj h] at ha
    exact ⟨a, ha, rfl⟩
  | cons e rest ih =>
    rcases mergeFrom_cons_eq_ok h with ⟨-, -, -, hjoined⟩ | ⟨-, -, m, hm, rfl⟩
    · obtain ⟨f, hf, hrange⟩ := ih hjoined ha
      rcases List.mem_cons.mp hf with rfl | hf
      · exact ⟨last, List.mem_cons_self, hrange⟩
      · exact ⟨f, List.mem_cons_of_mem _ (List.mem_cons_of_mem _ hf), hrange⟩
    · rcases List.mem_cons.mp ha with rfl | ha
      · exact ⟨a, List.mem_cons_self, rfl⟩
      · obtain ⟨f, hf, hrange⟩ := ih hm ha
        exact ⟨f, List.mem_cons_of_mem _ hf, hrange⟩

theorem order_eq_eq_iff {a b : TextEdit} :
    a.order b = .eq ↔ a.file = b.file ∧ a.range = b.range := by
  obtain ⟨file, ⟨start, stop⟩, replacement⟩ := a
  obtain ⟨file', ⟨start', stop'⟩, replacement'⟩ := b
  simp [order, Range.order, Ordering.then_eq_eq]

/-- Neighbours of normalized edits differ in their place. -/
theorem Settled.order_eq_lt {a b : TextEdit} (h : Settled a b)
    (hb : b.range.start ≤ b.range.stop) : a.order b = .lt := by
  cases horder : a.order b with
  | lt => rfl
  | gt =>
    have hle := h.ordered
    rw [horder] at hle
    cases hle
  | eq =>
    exfalso
    obtain ⟨hfile, hrange⟩ := order_eq_eq_iff.mp horder
    have hunjoined := h.unjoined
    have hapart := h.apart
    simp only [hfile, hrange, beq_self_eq_true, Bool.true_and, decide_eq_true_eq] at hunjoined hapart
    exact hunjoined (beq_iff_eq.mpr (by omega))

/-- The edits of one file, taken out of edits in order, are in the order of their positions. -/
theorem byPosition_filter_file {edits : List TextEdit}
    (h : edits.Pairwise fun a b => (a.order b).isLE = true) (file : String) :
    byPosition (edits.filter (·.file == file)) = edits.filter (·.file == file) := by
  apply List.mergeSort_of_pairwise
  refine (h.filter _).imp_of_mem fun {a b} ha hb hab => ?_
  have hfile : a.file = b.file :=
    (eq_of_beq (List.mem_filter.mp ha).2).trans (eq_of_beq (List.mem_filter.mp hb).2).symm
  exact Range.isLE_order (isLE_order_range hab hfile)

end TextEdit

namespace WorkspaceEdit

variable {w n : WorkspaceEdit}

theorem ordered_normalized (hordered : ∀ e ∈ w.edits, e.range.start ≤ e.range.stop)
    (h : w.normalized = .ok n) : ∀ e ∈ n.edits, e.range.start ≤ e.range.stop := by
  intro e he
  rw [normalized_eq_ok_iff] at h
  cases hsorted : TextEdit.sorted w.edits with
  | nil =>
    rw [hsorted, TextEdit.merge] at h
    rw [← Except.ok.inj h] at he
    cases he
  | cons f rest =>
    rw [hsorted] at h
    obtain ⟨g, hg, hrange⟩ := TextEdit.exists_range_mergeFrom h he
    rw [hrange]
    exact hordered g (TextEdit.mem_sorted.mp (hsorted ▸ hg))

/-- Normalized edits do to the text of a file what the sorted edits of that file do. -/
theorem applyEdits_of_normalized (h : w.normalized = .ok n) (file : String) (t : Text) :
    t.applyEdits (n.of file) =
      t.applyEdits ((TextEdit.sorted w.edits).filter (·.file == file)) := by
  have hsorted := TextEdit.byPosition_filter_file (TextEdit.pairwise_sorted w.edits) file
  have hmerged : TextEdit.byPosition (n.of file) = n.of file :=
    TextEdit.byPosition_filter_file (TextEdit.pairwise_of_isChain (isChain_normalized h)) file
  have hfile := normalized_eq_ok_iff.mp (normalized_of h file)
  rw [of, ← TextEdit.filter_sorted] at hfile
  rw [Text.applyEdits_eq_applyFromLast, Text.applyEdits_eq_applyFromLast, hsorted, hmerged]
  exact TextEdit.applyFromLast_merge hfile t

/-- Normalizing is sound, complete and idempotent. It refuses edits exactly if two edits of one file
overlap when they are in order and free of repeats. Otherwise the result is in strictly ascending
order, no two of its edits of one file overlap, to normalize it again changes nothing, and its edits
of a file do to every text what the edits in order do, failures included. -/
theorem normalize_sound_complete {edits : List TextEdit}
    (hordered : ∀ e ∈ edits, e.range.start ≤ e.range.stop) :
    ((∃ err, (normalize { edits }).1 = .error err) ↔
      ∃ x y, [x, y].Sublist (TextEdit.sorted edits) ∧ x.file = y.file ∧
        y.range.start < x.range.stop) ∧
    ∀ n, normalize { edits } = (.ok (), n) →
      (n.edits.Pairwise fun a b => a.order b = .lt) ∧
      (n.edits.Pairwise fun a b => a.file = b.file → a.range.stop ≤ b.range.start) ∧
      n.normalize = (.ok (), n) ∧
      ∀ (file : String) (t : Text), t.applyEdits (n.of file) =
        t.applyEdits ((TextEdit.sorted edits).filter (·.file == file)) := by
  constructor
  · have hfails : (∃ err, (normalize { edits }).1 = .error err) ↔
        ¬ ∃ n, normalized { edits } = .ok n := by
      simp only [normalize_eq_error_iff]
      cases normalized { edits } <;> simp
    rw [hfails, exists_normalized_iff hordered, List.pairwise_iff_forall_sublist]
    simp only [TextEdit.Clears, not_forall, Nat.not_le, exists_prop]
  · intro n hn
    rw [normalize_eq_ok_iff] at hn
    have hchain := isChain_normalized hn
    have hagain := normalized_normalized hn
    have hordered' : ∀ e ∈ n.edits, e.range.start ≤ e.range.stop := ordered_normalized hordered hn
    refine ⟨?_, ?_, normalize_eq_ok_iff.mpr hagain, applyEdits_of_normalized hn⟩
    · have : IsTrans TextEdit fun a b => a.order b = .lt := ⟨fun _ _ _ => Std.TransCmp.lt_trans⟩
      exact List.isChain_iff_pairwise.mp
        (hchain.imp_of_mem_imp fun a b _ hb hab => hab.order_eq_lt (hordered' b hb))
    · rw [← TextEdit.sorted_eq_self hchain]
      exact (exists_normalized_iff hordered').mp ⟨n, hagain⟩

/-- Edits of two files that are out of order: a repeat, two insertions at one place, and a replacement
that begins there. -/
def crowdedEdits : List TextEdit :=
  [⟨"B.cs", ⟨0, 1⟩, ""⟩, ⟨"A.cs", ⟨3, 5⟩, "x"⟩, ⟨"A.cs", ⟨3, 3⟩, "a"⟩, ⟨"A.cs", ⟨3, 3⟩, "b"⟩,
    ⟨"A.cs", ⟨3, 5⟩, "x"⟩]

theorem normalize_sound_complete_crowdedEdits :
    (∀ e ∈ crowdedEdits, e.range.start ≤ e.range.stop) ∧
      normalize { edits := crowdedEdits } =
        (.ok (), ⟨[⟨"A.cs", ⟨3, 3⟩, "ab"⟩, ⟨"A.cs", ⟨3, 5⟩, "x"⟩, ⟨"B.cs", ⟨0, 1⟩, ""⟩]⟩) ∧
      Text.applyEdits "string".toList
        ((TextEdit.sorted crowdedEdits).filter (·.file == "A.cs")) = .ok "strabxg".toList := by
  have hordered : ∀ e ∈ crowdedEdits, e.range.start ≤ e.range.stop := by decide
  have hinOrder : crowdedEdits.mergeSort (fun a b => (a.order b).isLE) =
      [⟨"A.cs", ⟨3, 3⟩, "a"⟩, ⟨"A.cs", ⟨3, 3⟩, "b"⟩, ⟨"A.cs", ⟨3, 5⟩, "x"⟩, ⟨"A.cs", ⟨3, 5⟩, "x"⟩,
        ⟨"B.cs", ⟨0, 1⟩, ""⟩] := by
    have hafter : compare "B.cs" "A.cs" = .gt := by decide
    simp [crowdedEdits, List.mergeSort, List.MergeSort.Internal.splitInTwo, TextEdit.order,
      Range.order, Nat.isLE_compare, hafter]
  have hn : normalize { edits := crowdedEdits } =
      (.ok (), ⟨[⟨"A.cs", ⟨3, 3⟩, "ab"⟩, ⟨"A.cs", ⟨3, 5⟩, "x"⟩, ⟨"B.cs", ⟨0, 1⟩, ""⟩]⟩) := by
    rw [normalize, normalized, TextEdit.sorted, hinOrder]
    rfl
  obtain ⟨-, hkeeps⟩ := normalize_sound_complete hordered
  refine ⟨hordered, hn, ?_⟩
  rw [← (hkeeps _ hn).2.2.2 "A.cs", Text.applyEdits, TextEdit.byPosition,
    List.mergeSort_of_pairwise (by decide +kernel)]
  rfl

end WorkspaceEdit

end ClassRefactor
