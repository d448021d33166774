import ClassRefactor.Splice.Append
import ClassRefactor.Proofs.Edit.Apart
import ClassRefactor.Proofs.Text.Strip

/-!
# Replacements that only insert

A replacement may move white space about, but it must not take anything else away. What it then does
to the content of a text is an insertion at one place.
-/

namespace ClassRefactor

namespace Replacement

/-- The replacement as an edit of a file. -/
def toEdit (file : String) (r : Replacement) : TextEdit := ⟨file, r.range, r.text⟩

/-- A replacement that inserts its text at `pos`: only white space lies from its start up to
there, and that is all it takes away. -/
structure Inserts (t : Text) (pos : Nat) (r : Replacement) : Prop where
  boundary : t.isBoundary pos = true
  start : t.isBoundary r.range.start = true
  stop : t.isBoundary r.range.stop = true
  ordered : r.range.start ≤ r.range.stop
  before : r.range.stop ≤ pos
  white : Text.strip (t.slice r.range.start pos) = []

variable {t : Text} {pos : Nat} {r : Replacement}

theorem inserts_emptyAt (h : t.isBoundary pos = true) (text : String) :
    Inserts t pos ⟨.emptyAt pos, text⟩ :=
  ⟨h, h, h, Nat.le_refl _, Nat.le_refl _, by simp [Range.emptyAt]⟩

/-- The text around an insertion: what is taken away and what stays before `pos` is white. -/
theorem Inserts.parts (h : r.Inserts t pos) :
    ∃ a u v c, t = a ++ u ++ (v ++ c) ∧ r.range.start = a.size ∧ r.range.stop = a.size + u.size ∧
      pos = a.size + u.size + v.size ∧ u.strip = [] ∧ v.strip = [] := by
  obtain ⟨a, u, rest, rfl, ha, hu⟩ := Text.split_at_boundaries h.start h.stop h.ordered
  obtain ⟨d, hd⟩ := Nat.exists_eq_add_of_le h.before
  have hsize : a.size + u.size = (a ++ u).size := by simp
  have hb := h.boundary
  rw [hd, ← hu, hsize, Text.isBoundary_append_right] at hb
  obtain ⟨v, c, rfl, rfl⟩ := Text.isBoundary_iff.mp hb
  have hwhite := h.white
  have hslice : Text.slice (a ++ u ++ (v ++ c)) a.size (a.size + (u ++ v).size) = u ++ v := by
    have := Text.slice_append a (u ++ v) c
    simpa using this
  rw [← ha, hd, ← hu, Nat.add_assoc, ← Text.size_append u v, hslice, Text.strip_append] at hwhite
  obtain ⟨h1, h2⟩ := List.append_eq_nil_iff.mp hwhite
  exact ⟨a, u, v, c, rfl, ha.symm, hu.symm, by rw [hd, ← hu], h1, h2⟩

/-- An insertion puts its text at its place and keeps everything else. -/
theorem Inserts.apply (h : r.Inserts t pos) (file : String) :
    ∃ t', (r.toEdit file).applyTo t = .ok t' ∧
      t'.strip = (t.before pos).strip ++ content r.text ++ (t.after pos).strip := by
  obtain ⟨a, u, v, c, rfl, hstart, hstop, hpos, hu, hv⟩ := h.parts
  refine ⟨_, TextEdit.applyTo_append _ hstart hstop, ?_⟩
  have hsize : pos = (a ++ u ++ v).size := by simp [hpos, Nat.add_assoc]
  rw [hsize, ← List.append_assoc (a ++ u), Text.before_append, Text.after_append]
  simp [hu, hv, content, toEdit]

theorem apart_singleton (file : String) (h : r.range.start ≤ r.range.stop) :
    TextEdit.Apart [r.toEdit file] :=
  ⟨by simpa [toEdit] using h, by simp⟩

theorem Inserts.apart_pair {first : Nat} (h : r.Inserts t pos) (hlt : first < r.range.start)
    (text file : String) : TextEdit.Apart [toEdit file ⟨.emptyAt first, text⟩, r.toEdit file] := by
  refine ⟨?_, ?_⟩
  · simpa [toEdit, Range.emptyAt] using h.ordered
  · have hne : Range.emptyAt first ≠ r.range := by
      intro heq
      rw [← heq] at hlt
      exact Nat.lt_irrefl _ hlt
    have hle : (Range.emptyAt first).stop ≤ r.range.start := Nat.le_of_lt hlt
    simpa [toEdit, hne] using hle

/-- Two insertions, the second after the first. -/
theorem Inserts.apply_pair {first : Nat} {text : String} (h : r.Inserts t pos)
    (hfirst : t.isBoundary first = true) (hlt : first < r.range.start) (file : String) :
    ∃ t', t.applyEdits [toEdit file ⟨.emptyAt first, text⟩, r.toEdit file] = .ok t' ∧
      t'.strip = (t.before first).strip ++ content text ++ (t.slice first pos).strip ++
        content r.text ++ (t.after pos).strip := by
  rw [Text.applyEdits_pair t (h.apart_pair hlt text file)]
  obtain ⟨a, u, v, c, rfl, hstart, hstop, hpos, hu, hv⟩ := h.parts
  rw [TextEdit.applyTo_append (r.toEdit file) hstart hstop]
  -- The first place lies in the part before the second insertion.
  have hsplit : ∃ x y, a = x ++ y ∧ first = x.size := by
    have hb := h.start
    obtain ⟨x, y, z, hxyz, hx, hy⟩ := Text.split_at_boundaries hfirst hb (Nat.le_of_lt hlt)
    have hsize : (x ++ y).size = a.size := by rw [Text.size_append, hy, hstart]
    have := congrArg (fun t : Text => t.before a.size) hxyz
    rw [List.append_assoc a u, Text.before_append, ← hsize, Text.before_append] at this
    exact ⟨x, y, this, hx.symm⟩
  obtain ⟨x, y, rfl, rfl⟩ := hsplit
  have happ : (toEdit file ⟨.emptyAt x.size, text⟩).applyTo
      (x ++ [] ++ (y ++ r.text.toList ++ (v ++ c))) =
      .ok (x ++ text.toList ++ (y ++ r.text.toList ++ (v ++ c))) :=
    TextEdit.applyTo_append _ rfl (by simp [toEdit, Range.emptyAt])
  refine ⟨x ++ text.toList ++ (y ++ r.text.toList ++ (v ++ c)), ?_, ?_⟩
  · simpa [Except.bind, toEdit] using happ
  · have hsize : pos = (x ++ y ++ u ++ v).size := by simp [hpos, Nat.add_assoc]
    have hbefore : Text.before (x ++ y ++ u ++ (v ++ c)) x.size = x := by
      simp only [List.append_assoc, Text.before_append]
    have hslice : Text.slice (x ++ y ++ u ++ (v ++ c)) x.size pos = y ++ u ++ v := by
      have := Text.slice_append x (y ++ u ++ v) c
      rw [hsize]
      simpa [Nat.add_assoc] using this
    have hafter : Text.after (x ++ y ++ u ++ (v ++ c)) pos = c := by
      rw [hsize, ← List.append_assoc, Text.after_append]
    rw [hbefore, hslice, hafter]
    simp [hu, hv, content]

/-- An insertion at `first` and another at `pos`, either of which may be left out. -/
theorem Inserts.apart_additions {first : Nat} (skipFirst skipSecond : Bool)
    (h : r.Inserts t pos) (hlt : first < r.range.start) (text file : String) :
    TextEdit.Apart (((if skipFirst then [] else [Replacement.mk (.emptyAt first) text]) ++
      if skipSecond then [] else [r]).map (toEdit file)) := by
  cases skipFirst with
  | true =>
    cases skipSecond with
    | true => exact ⟨by simp, by simp⟩
    | false => exact apart_singleton file h.ordered
  | false =>
    cases skipSecond with
    | true => exact apart_singleton file (Nat.le_refl _)
    | false => exact h.apart_pair hlt text file

/-- Of two additions, one that is left out has nothing to say. -/
theorem Inserts.apply_additions {first : Nat} {text : String} {skipFirst skipSecond : Bool}
    {rs : List Replacement} (h : r.Inserts t pos) (hfirst : t.isBoundary first = true)
    (hlt : first < r.range.start) (file : String) (hsome : (skipFirst && skipSecond) = false)
    (hskipFirst : skipFirst = true → content text = [])
    (hskipSecond : skipSecond = true → content r.text = [])
    (hrs : rs = (if skipFirst then [] else [⟨.emptyAt first, text⟩]) ++
      if skipSecond then [] else [r]) :
    ∃ t', t.applyEdits (rs.map (toEdit file)) = .ok t' ∧
      t'.strip = (t.before first).strip ++ content text ++ (t.slice first pos).strip ++
        content r.text ++ (t.after pos).strip := by
  have hle : first ≤ pos := by
    have := h.ordered
    have := h.before
    omega
  subst hrs
  cases skipFirst with
  | true =>
    cases skipSecond with
    | true => cases hsome
    | false =>
      obtain ⟨t', happly, hstrip⟩ := h.apply file
      rw [← Text.applyEdits_singleton] at happly
      refine ⟨t', happly, ?_⟩
      rw [hstrip, hskipFirst rfl, ← Text.before_append_slice hfirst h.boundary hle]
      simp
  | false =>
    cases skipSecond with
    | true =>
      obtain ⟨t', happly, hstrip⟩ := (inserts_emptyAt hfirst text).apply file
      rw [← Text.applyEdits_singleton] at happly
      refine ⟨t', happly, ?_⟩
      rw [hstrip, hskipSecond rfl, ← Text.slice_append_after hfirst h.boundary hle]
      simp
    | false => exact h.apply_pair hfirst hlt file

end Replacement

end ClassRefactor
