import ClassRefactor.Edit.Preview
import ClassRefactor.Proofs.Edit.Files
import ClassRefactor.Proofs.Edit.Normal

/-!
# Previews show what edits do

The edits of one file are applied to its text outright, or a preview is made of them, which
normalizes them again and looks for the file by its name. Both give the same text or the same error.
-/

namespace ClassRefactor

namespace FileMap

variable {name : String} {text : Text} {n : WorkspaceEdit}

/-- A file on its own is edited like its text. -/
theorem edited_singleton (name : String) (text : Text) (edits : List TextEdit) :
    edited [(name, text)] name edits = text.applyEdits edits := by
  simp [edited, get?]

section

variable (hn : n.normalized = .ok n) (hname : ∀ e ∈ n.edits, e.file = name)

include hname in
theorem of_eq_edits : n.of name = n.edits :=
  List.filter_eq_self.mpr fun e he => beq_iff_eq.mpr (hname e he)

include hname in
theorem eq_of_touches {file : String} (h : n.Touches file) : file = name := by
  obtain ⟨e, he, rfl⟩ := h
  exact hname e he

include hn hname

theorem applyEdit_singleton_error {e : EditError} (h : text.applyEdits n.edits = .error e) :
    applyEdit [(name, text)] n = .error e := by
  have htouches : n.Touches name := by
    rw [WorkspaceEdit.touches_iff_of_ne_nil, of_eq_edits hname]
    intro hnil
    rw [hnil, Text.applyEdits_nil] at h
    cases h
  have hedited : edited [(name, text)] name (n.of name) = .error e := by
    rw [edited_singleton, of_eq_edits hname, h]
  cases hout : applyEdit [(name, text)] n with
  | ok out =>
    obtain ⟨text', htext'⟩ := (exists_applyEdit_iff hn).mp ⟨out, hout⟩ name htouches
    rw [hedited] at htext'
    cases htext'
  | error e' =>
    obtain ⟨file, hfile, hbad, -⟩ := applyEdit_eq_error hn hout
    rw [eq_of_touches hname hfile, hedited] at hbad
    rw [Except.error.inj hbad]

theorem applyEdit_singleton_ok {t : Text} (h : text.applyEdits n.edits = .ok t) :
    ∃ out, applyEdit [(name, text)] n = .ok out ∧ out.get? name = some t := by
  have hedited : edited [(name, text)] name (n.of name) = .ok t := by
    rw [edited_singleton, of_eq_edits hname, h]
  have hout : ∃ out, applyEdit [(name, text)] n = .ok out :=
    (exists_applyEdit_iff hn).mpr fun file hfile => by
      rw [eq_of_touches hname hfile]
      exact ⟨t, hedited⟩
  obtain ⟨out, hout⟩ := hout
  refine ⟨out, hout, ?_⟩
  have hget : get? [(name, text)] name = some text := by simp [get?]
  obtain ⟨huntouched, htouched⟩ := get?_applyEdit hn hout name
  by_cases hfile : n.Touches name
  · obtain ⟨text', t', hsame, happly, hout'⟩ := htouched hfile
    rw [hget] at hsame
    rw [← Option.some.inj hsame, of_eq_edits hname, h] at happly
    rw [hout', Except.ok.inj happly]
  · -- There are no edits at all, and the file keeps its text.
    have hnil : n.edits = [] := by
      rw [← of_eq_edits hname]
      exact not_not.mp (mt WorkspaceEdit.touches_iff_of_ne_nil.mpr hfile)
    rw [hnil, Text.applyEdits_nil] at h
    rw [huntouched hfile, hget, Except.ok.inj h]

end

/-- Normalized edits of one file, applied to its text, fail exactly as a preview of them does. When
they give a text, the preview lists no file if that is the text as it was, and otherwise the file,
with the text before and after and the number of edits. -/
theorem preview_agrees (name : String) (text : Text) (radius : Nat) {w n : WorkspaceEdit}
    (hn : w.normalized = .ok n) (hname : ∀ e ∈ n.edits, e.file = name) :
    (∀ e, text.applyEdits n.edits = .error e ↔ preview [(name, text)] n radius = .error e) ∧
    ∀ t, text.applyEdits n.edits = .ok t →
      ∃ p, preview [(name, text)] n radius = .ok p ∧ p.totalEdits = n.edits.length ∧
        (p.files = [] ↔ t = text) ∧
        (t ≠ text → ∃ d, p.files = [d] ∧ d.file = name ∧ d.before = text ∧ d.after = t ∧
          d.editCount = n.edits.length ∧ d.diff = Diff.unified name radius text t) := by
  have hnormal := WorkspaceEdit.normalized_normalized hn
  have hfails : ∀ {e}, text.applyEdits n.edits = .error e →
      preview [(name, text)] n radius = .error e := by
    intro e h
    rw [preview, hnormal]
    simp only [bind, Except.bind, applyEdit_singleton_error hnormal hname h]
  have hgives : ∀ {t}, text.applyEdits n.edits = .ok t → preview [(name, text)] n radius =
      .ok ⟨n.edits.length, (FilePreview.of? radius n.edits name text t).toList⟩ := by
    intro t h
    obtain ⟨out, hout, hget⟩ := applyEdit_singleton_ok hnormal hname h
    rw [preview, hnormal]
    simp only [bind, Except.bind, hout, pure, Except.pure, List.filterMap_cons, List.filterMap_nil,
      hget, Option.getD_some]
    cases FilePreview.of? radius n.edits name text t <;> rfl
  refine ⟨fun e => ⟨hfails, fun h => ?_⟩, fun t ht => ⟨_, hgives ht, rfl, ?_, fun hne => ?_⟩⟩
  · cases happly : text.applyEdits n.edits with
    | error e' =>
      rw [hfails happly] at h
      rw [Except.error.inj h]
    | ok t =>
      rw [hgives happly] at h
      cases h
  · by_cases heq : text = t
    · simp [FilePreview.of?, heq]
    · simp [FilePreview.of?, heq, Ne.symm heq]
  · have hcount : n.edits.countP (·.file == name) = n.edits.length :=
      List.countP_eq_length.mpr fun e he => beq_iff_eq.mpr (hname e he)
    have hpreview : FilePreview.of? radius n.edits name text t =
        some ⟨name, text, t, Diff.unified name radius text t, n.edits.length⟩ := by
      simp [FilePreview.of?, Ne.symm hne, hcount]
    exact ⟨_, by rw [hpreview]; rfl, rfl, rfl, rfl, rfl, rfl⟩

/-- Two insertions at one place and a replacement, not in order. -/
def mixedEdit : WorkspaceEdit :=
  ⟨[⟨"C.cs", ⟨6, 7⟩, "D"⟩, ⟨"C.cs", ⟨0, 0⟩, "public "⟩, ⟨"C.cs", ⟨0, 0⟩, "sealed "⟩]⟩

theorem preview_agrees_mixedEdit :
    ∃ n p, mixedEdit.normalized = .ok n ∧ (∀ e ∈ n.edits, e.file = "C.cs") ∧
      Text.applyEdits "class C;".toList n.edits = .ok "public sealed class D;".toList ∧
      preview [("C.cs", "class C;".toList)] n 3 = .ok p ∧ p.totalEdits = 2 ∧
      p.files.map FilePreview.after = ["public sealed class D;".toList] := by
  have hn : mixedEdit.normalized =
      .ok ⟨[⟨"C.cs", ⟨0, 0⟩, "public sealed "⟩, ⟨"C.cs", ⟨6, 7⟩, "D"⟩]⟩ := by
    have hinOrder : mixedEdit.edits.mergeSort (fun a b => (a.order b).isLE) =
        [⟨"C.cs", ⟨0, 0⟩, "public "⟩, ⟨"C.cs", ⟨0, 0⟩, "sealed "⟩, ⟨"C.cs", ⟨6, 7⟩, "D"⟩] := by
      have hafter : compare 6 0 = .gt := by decide
      simp [mixedEdit, List.mergeSort, List.MergeSort.Internal.splitInTwo, TextEdit.order,
        Range.order, hafter]
    rw [WorkspaceEdit.normalized, TextEdit.sorted, hinOrder]
    rfl
  have ht : Text.applyEdits "class C;".toList
      [⟨"C.cs", ⟨0, 0⟩, "public sealed "⟩, ⟨"C.cs", ⟨6, 7⟩, "D"⟩] =
      .ok "public sealed class D;".toList := by
    rw [Text.applyEdits, TextEdit.byPosition, List.mergeSort_of_pairwise (by decide +kernel)]
    rfl
  have hname : ∀ e ∈ ([⟨"C.cs", ⟨0, 0⟩, "public sealed "⟩, ⟨"C.cs", ⟨6, 7⟩, "D"⟩] : List TextEdit),
      e.file = "C.cs" := by simp
  obtain ⟨-, hgives⟩ := preview_agrees "C.cs" "class C;".toList 3 hn hname
  obtain ⟨p, hp, htotal, -, hchanged⟩ := hgives _ ht
  obtain ⟨d, hfiles, -, -, hafter, -⟩ := hchanged (by decide)
  exact ⟨_, p, hn, hname, ht, hp, htotal, by rw [hfiles, List.map_singleton, hafter]⟩

end FileMap

end ClassRefactor
