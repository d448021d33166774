import Mathlib.Data.List.Chain
import ClassRefactor.Proofs.Edit.Merge
import ClassRefactor.Proofs.Edit.Stable

/-!
# Normal form

Edits of several files are sorted and merged as one list. Files come one after another in it, so
that what becomes of the edits of one file does not depend on the others: normalizing and then
picking out a file is picking out the file and then normalizing.

Normalized edits are in order, and of two neighbours neither can be joined to the other, nor overlap
it, nor repeat it. Edits in this form are left as they are, so to normalize twice is to normalize
once.
-/

namespace ClassRefactor

/-- The edits of one file, in their order. -/
def WorkspaceEdit.of (w : WorkspaceEdit) (file : String) : List TextEdit :=
  w.edits.filter (·.file == file)

/-- Some edit is of this file. -/
def WorkspaceEdit.Touches (w : WorkspaceEdit) (file : String) : Prop :=
  ∃ e ∈ w.edits, e.file = file

namespace TextEdit

/-- Once edits in order have left a file, no edit of that file follows. -/
theorem filter_eq_nil_of_left {file : String} {e f : TextEdit} {edits : List TextEdit}
    (h : (e :: f :: edits).Pairwise fun a b => (a.order b).isLE = true) (he : e.file = file)
    (hf : f.file ≠ file) : (f :: edits).filter (·.file == file) = [] := by
  obtain ⟨hfirst, hrest⟩ := List.pairwise_cons.mp h
  rw [List.filter_eq_nil_iff]
  intro g hg hfile
  rw [beq_iff_eq] at hfile
  rcases List.mem_cons.mp hg with rfl | hg
  · exact hf hfile
  · have hbetween := file_eq_of_between (hfirst f List.mem_cons_self)
      ((List.pairwise_cons.mp hrest).1 g hg) (he.trans hfile.symm)
    exact hf (hbetween.symm.trans he)

theorem dropRepeats_self (e : TextEdit) (edits : List TextEdit) :
    dropRepeats (e :: e :: edits) = dropRepeats (e :: edits) := by
  simp [dropRepeats]

theorem dropRepeats_of_ne {e f : TextEdit} (h : e ≠ f) (edits : List TextEdit) :
    dropRepeats (e :: f :: edits) = e :: dropRepeats (f :: edits) := by
  simp [dropRepeats, h]

/-- Repeats are dropped within each file. -/
theorem filter_dropRepeats (file : String) {edits : List TextEdit}
    (h : edits.Pairwise fun a b => (a.order b).isLE = true) :
    (dropRepeats edits).filter (·.file == file) = dropRepeats (edits.filter (·.file == file)) := by
  induction edits with
  | nil => rfl
  | cons e rest ih =>
    have ih := ih (List.pairwise_cons.mp h).2
    cases rest with
    | nil => by_cases he : e.file = file <;> simp [dropRepeats, he]
    | cons f rest =>
      by_cases hef : e = f
      · subst hef
        rw [dropRepeats_self, ih]
        by_cases he : e.file = file
        · simp [he, dropRepeats_self]
        · simp [he]
      · rw [dropRepeats_of_ne hef, List.filter_cons, ih]
        by_cases he : e.file = file
        · by_cases hf : f.file = file
          · simp [he, hf, dropRepeats_of_ne hef]
          · have hnil := filter_eq_nil_of_left h he hf
            rw [List.filter_cons_of_pos (l := f :: rest) (by simpa using he), hnil]
            simp [he, dropRepeats]
        · simp [he]

theorem filter_sorted (file : String) (edits : List TextEdit) :
    (sorted edits).filter (·.file == file) = sorted (edits.filter (·.file == file)) := by
  have htrans : ∀ a b c : TextEdit, (a.order b).isLE = true → (b.order c).isLE = true →
      (a.order c).isLE = true := fun _ _ _ => Std.TransCmp.isLE_trans
  rw [sorted, filter_dropRepeats file (List.pairwise_mergeSort htrans isLE_order_total edits),
    filter_mergeSort htrans isLE_order_total, sorted]

theorem pairwise_sorted (edits : List TextEdit) :
    (sorted edits).Pairwise fun a b => (a.order b).isLE = true :=
  List.Pairwise.sublist (dropRepeats_sublist _)
    (List.pairwise_mergeSort (fun _ _ _ => Std.TransCmp.isLE_trans) isLE_order_total _)

/-- Edits in order are merged within each file. The induction is on the edits that are left. -/
theorem merge_filter_of_mergeFrom (file : String) {last : TextEdit} {edits merged : List TextEdit}
    (h : (last :: edits).Pairwise fun a b => (a.order b).isLE = true)
    (hmerged : mergeFrom last edits = .ok merged) :
    merge ((last :: edits).filter (·.file == file)) = .ok (merged.filter (·.file == file)) := by
  induction edits generalizing last merged with
  | nil =>
    obtain rfl := Except.ok.inj hmerged
    by_cases hlast : last.file = file <;> simp [merge, mergeFrom, hlast]
  | cons e rest ih =>
    obtain ⟨hfirst, hrest⟩ := List.pairwise_cons.mp h
    rcases mergeFrom_cons_eq_ok hmerged with
      ⟨hfile, hrange, hempty, hjoined⟩ | ⟨hjoin, hoverlap, m, hm, rfl⟩
    · have horder : ({ last with replacement := last.replacement ++ e.replacement } ::
          rest).Pairwise fun a b => (a.order b).isLE = true :=
        List.pairwise_cons.mpr ⟨fun f hf => hfirst f (List.mem_cons_of_mem _ hf),
          (List.pairwise_cons.mp hrest).2⟩
      rw [← ih horder hjoined]
      by_cases hlast : last.file = file
      · have he : e.file = file := hfile.symm.trans hlast
        have hpicked : (last :: e :: rest).filter (·.file == file) =
            last :: e :: rest.filter (·.file == file) := by simp [hlast, he]
        rw [hpicked, merge, mergeFrom, if_pos (by simp [hfile, hrange, hempty]),
          List.filter_cons_of_pos (by simpa using hlast)]
        rfl
      · have he : e.file ≠ file := fun he => hlast (hfile.trans he)
        simp [hlast, he]
    · have ih := ih hrest hm
      by_cases hlast : last.file = file
      · by_cases he : e.file = file
        · have hpicked : (last :: e :: rest).filter (·.file == file) =
              last :: e :: rest.filter (·.file == file) := by simp [hlast, he]
          rw [List.filter_cons_of_pos (by simpa using he), merge] at ih
          rw [hpicked, merge, mergeFrom, if_neg (by simp [hjoin]), if_neg (by simp [hoverlap]), ih,
            List.filter_cons_of_pos (by simpa using hlast)]
          rfl
        · have hnil := filter_eq_nil_of_left h hlast he
          rw [hnil, merge] at ih
          rw [List.filter_cons_of_pos (by simpa using hlast), hnil,
            List.filter_cons_of_pos (by simpa using hlast), ← Except.ok.inj ih]
          rfl
      · rw [List.filter_cons_of_neg (by simpa using hlast), ih,
          List.filter_cons_of_neg (by simpa using hlast)]

/-- Merging leaves no file without its edits. -/
theorem exists_file_mergeFrom (file : String) {last : TextEdit} {edits merged : List TextEdit}
    (h : mergeFrom last edits = .ok merged) :
    (∃ e ∈ merged, e.file = file) ↔ ∃ e ∈ last :: edits, e.file = file := by
  induction edits generalizing last merged with
  | nil => rw [← Except.ok.inj h]
  | cons e rest ih =>
    rcases mergeFrom_cons_eq_ok h with ⟨hfile, -, -, hjoined⟩ | ⟨-, -, m, hm, rfl⟩
    · rw [ih hjoined]
      simp [hfile]
    · rw [List.exists_mem_cons_iff, ih hm, List.exists_mem_cons_iff (l := e :: rest)]

end TextEdit

namespace WorkspaceEdit

variable {w n : WorkspaceEdit}

theorem normalized_eq_ok_iff :
    w.normalized = .ok n ↔ TextEdit.merge (TextEdit.sorted w.edits) = .ok n.edits := by
  obtain ⟨edits⟩ := n
  unfold normalized
  cases TextEdit.merge (TextEdit.sorted w.edits) <;> simp [Except.map]

theorem normalize_eq_ok_iff : w.normalize = (.ok (), n) ↔ w.normalized = .ok n := by
  unfold normalize
  cases w.normalized <;> simp

theorem normalize_eq_error_iff {err : EditError} :
    w.normalize.1 = .error err ↔ w.normalized = .error err := by
  unfold normalize
  cases w.normalized <;> simp

/-- Normalizing and then picking out a file is picking out the file and then normalizing. -/
theorem normalized_of (h : w.normalized = .ok n) (file : String) :
    normalized { edits := w.of file } = .ok { edits := n.of file } := by
  rw [normalized_eq_ok_iff] at h ⊢
  have horder := TextEdit.pairwise_sorted w.edits
  rw [WorkspaceEdit.of, ← TextEdit.filter_sorted]
  cases hsorted : TextEdit.sorted w.edits with
  | nil =>
    rw [hsorted, TextEdit.merge] at h
    rw [WorkspaceEdit.of, ← Except.ok.inj h]
    rfl
  | cons e rest =>
    rw [hsorted] at h horder
    exact TextEdit.merge_filter_of_mergeFrom file horder h

/-- Normalizing keeps the set of edited files. -/
theorem touches_normalized (h : w.normalized = .ok n) (file : String) :
    n.Touches file ↔ w.Touches file := by
  rw [normalized_eq_ok_iff] at h
  have hsorted : w.Touches file ↔ ∃ e ∈ TextEdit.sorted w.edits, e.file = file := by
    simp only [Touches, TextEdit.mem_sorted]
  rw [hsorted]
  cases hs : TextEdit.sorted w.edits with
  | nil =>
    rw [hs, TextEdit.merge] at h
    simp [Touches, ← Except.ok.inj h]
  | cons e rest =>
    rw [hs] at h
    exact TextEdit.exists_file_mergeFrom file h

theorem touches_iff_of_ne_nil {file : String} : w.Touches file ↔ w.of file ≠ [] := by
  simp [Touches, WorkspaceEdit.of]

/-- What is normalized of one file is settled by the edits of that file. -/
theorem of_normalized_congr {w' n' : WorkspaceEdit} (h : w.normalized = .ok n)
    (h' : w'.normalized = .ok n') {file : String} (hof : w.of file = w'.of file) :
    n.of file = n'.of file := by
  have hn := normalized_of h file
  rw [hof, normalized_of h' file] at hn
  exact (congrArg edits (Except.ok.inj hn)).symm

theorem mem_files {file : String} : file ∈ w.files ↔ w.Touches file := by
  rw [files, (List.mergeSort_perm ..).mem_iff, List.mem_eraseDups, List.mem_map, Touches]

/-- The edited files come in strictly ascending order. -/
theorem files_pairwise (w : WorkspaceEdit) : w.files.Pairwise (· < ·) :=
  pairwise_lt_mergeSort_eraseDups (w.edits.map TextEdit.file)

end WorkspaceEdit

/-- Edits are applied in the order of their positions, in whatever order they are given. -/
theorem Text.applyEdits_byPosition (t : Text) (edits : List TextEdit) :
    t.applyEdits (TextEdit.byPosition edits) = t.applyEdits edits := by
  have hsorted : TextEdit.byPosition (TextEdit.byPosition edits) = TextEdit.byPosition edits :=
    mergeSort_mergeSort TextEdit.positionLe_trans TextEdit.positionLe_total edits
  rw [applyEdits, hsorted, applyEdits]

namespace TextEdit

/-- Two neighbours of normalized edits. -/
structure Settled (a b : TextEdit) : Prop where
  ordered : (a.order b).isLE = true
  distinct : a ≠ b
  unjoined : ¬ (a.file == b.file && a.range == b.range && b.range.isEmpty) = true
  apart : ¬ (a.file == b.file && decide (b.range.start < a.range.stop)) = true

theorem dropRepeats_eq_self {edits : List TextEdit} (h : edits.IsChain (· ≠ ·)) :
    dropRepeats edits = edits := by
  induction edits with
  | nil => rfl
  | cons e rest ih =>
    cases rest with
    | nil => rfl
    | cons f rest =>
      obtain ⟨hef, hrest⟩ := List.isChain_cons_cons.mp h
      simp [dropRepeats, hef, ih hrest]

theorem head?_dropRepeats (edits : List TextEdit) : (dropRepeats edits).head? = edits.head? := by
  induction edits with
  | nil => rfl
  | cons e rest ih =>
    cases rest with
    | nil => rfl
    | cons f rest =>
      unfold dropRepeats
      split
      · rename_i heq
        rw [ih, eq_of_beq heq]
        rfl
      · rfl

theorem isChain_dropRepeats (edits : List TextEdit) : (dropRepeats edits).IsChain (· ≠ ·) := by
  induction edits with
  | nil => exact .nil
  | cons e rest ih =>
    cases rest with
    | nil => exact .singleton e
    | cons f rest =>
      unfold dropRepeats
      split
      · exact ih
      · rename_i hne
        refine List.isChain_cons.mpr ⟨fun g hg => ?_, ih⟩
        rw [head?_dropRepeats] at hg
        obtain rfl := Option.some.inj hg
        simpa using hne

theorem mergeFrom_eq_self {last : TextEdit} {edits : List TextEdit}
    (h : (last :: edits).IsChain Settled) : mergeFrom last edits = .ok (last :: edits) := by
  induction edits generalizing last with
  | nil => rfl
  | cons e rest ih =>
    obtain ⟨hsettled, hrest⟩ := List.isChain_cons_cons.mp h
    rw [mergeFrom, if_neg hsettled.unjoined, if_neg hsettled.apart, ih hrest]
    rfl

theorem pairwise_of_isChain {edits : List TextEdit} (h : edits.IsChain Settled) :
    edits.Pairwise fun a b => (a.order b).isLE = true := by
  have : IsTrans TextEdit fun a b => (a.order b).isLE = true :=
    ⟨fun _ _ _ => Std.TransCmp.isLE_trans⟩
  exact List.isChain_iff_pairwise.mp (h.imp fun _ _ hab => hab.ordered)

theorem sorted_eq_self {edits : List TextEdit} (h : edits.IsChain Settled) :
    sorted edits = edits := by
  rw [sorted, List.mergeSort_of_pairwise (pairwise_of_isChain h),
    dropRepeats_eq_self (h.imp fun _ _ hab => hab.distinct)]

/-- Merged edits are settled. The first of them stands where the first of the given edits did. An
insertion that was joined to others may come to equal the edit after it, but is joined to that one
too; so only an insertion may equal the edit that follows. -/
theorem isChain_mergeFrom {last : TextEdit} {edits merged : List TextEdit}
    (horder : (last :: edits).Pairwise fun a b => (a.order b).isLE = true)
    (hdistinct : edits.IsChain (· ≠ ·))
    (hlast : ∀ e ∈ edits.head?, last = e → e.range.isEmpty = true)
    (h : mergeFrom last edits = .ok merged) :
    merged.IsChain Settled ∧ ∃ first, merged.head? = some first ∧ first.file = last.file ∧
      first.range = last.range ∧ (first = last ∨ last.range.isEmpty = true) := by
  induction edits generalizing last merged with
  | nil =>
    obtain rfl := Except.ok.inj h
    exact ⟨.singleton last, last, rfl, rfl, rfl, .inl rfl⟩
  | cons e rest ih =>
    obtain ⟨hfirst, hrest⟩ := List.pairwise_cons.mp horder
    obtain ⟨hnext, hchain⟩ := List.isChain_cons.mp hdistinct
    rcases mergeFrom_cons_eq_ok h with
      ⟨-, hrange, hempty, hjoined⟩ | ⟨hjoin, hoverlap, m, hm, rfl⟩
    · have horder : ({ last with replacement := last.replacement ++ e.replacement } ::
          rest).Pairwise fun a b => (a.order b).isLE = true :=
        List.pairwise_cons.mpr ⟨fun f hf => hfirst f (List.mem_cons_of_mem _ hf),
          (List.pairwise_cons.mp hrest).2⟩
      obtain ⟨hmerged, first, hhead, hfile, hplace, -⟩ := ih horder hchain
        (fun f _ heq => by
          rw [← heq]
          exact hrange ▸ hempty)
        hjoined
      exact ⟨hmerged, first, hhead, hfile, hplace, .inr (hrange ▸ hempty)⟩
    · obtain ⟨hmerged, first, hhead, hfile, hplace, hsame⟩ :=
        ih hrest hchain (fun f hf heq => absurd heq (hnext f hf)) hm
      have hsettled : Settled last first := by
        refine ⟨?_, fun heq => ?_, ?_, ?_⟩
        · have hle := hfirst e List.mem_cons_self
          rwa [order, ← hfile, ← hplace] at hle
        · have hempty : e.range.isEmpty = true := by
            rcases hsame with rfl | hempty
            · exact hlast first rfl heq
            · exact hempty
          simp [heq, hfile, hplace, hempty] at hjoin
        · simpa [hfile, hplace] using hjoin
        · simpa [hfile, hplace] using hoverlap
      refine ⟨List.isChain_cons.mpr ⟨fun f hf => ?_, hmerged⟩, last, rfl, rfl, rfl, .inl rfl⟩
      obtain rfl := Option.some.inj (hhead.symm.trans hf)
      exact hsettled

end TextEdit

namespace WorkspaceEdit

variable {w n : WorkspaceEdit}

/-- Normalized edits are settled. -/
theorem isChain_normalized (h : w.normalized = .ok n) : n.edits.IsChain TextEdit.Settled := by
  rw [normalized_eq_ok_iff] at h
  cases hsorted : TextEdit.sorted w.edits with
  | nil =>
    rw [hsorted, TextEdit.merge] at h
    rw [← Except.ok.inj h]
    exact .nil
  | cons e rest =>
    have horder := TextEdit.pairwise_sorted w.edits
    have hdistinct : (TextEdit.sorted w.edits).IsChain (· ≠ ·) := TextEdit.isChain_dropRepeats _
    rw [hsorted] at h horder hdistinct
    obtain ⟨hnext, hchain⟩ := List.isChain_cons.mp hdistinct
    exact (TextEdit.isChain_mergeFrom horder hchain
      (fun f hf heq => absurd heq (hnext f hf)) h).1

/-- To normalize twice is to normalize once. -/
theorem normalized_normalized (h : w.normalized = .ok n) : n.normalized = .ok n := by
  have hchain := isChain_normalized h
  rw [normalized_eq_ok_iff, TextEdit.sorted_eq_self hchain]
  cases hn : n.edits with
  | nil => rfl
  | cons e rest =>
    rw [hn] at hchain
    exact TextEdit.mergeFrom_eq_self hchain

end WorkspaceEdit

end ClassRefactor
