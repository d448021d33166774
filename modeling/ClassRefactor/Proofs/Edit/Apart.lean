import ClassRefactor.Edit.Workspace
import ClassRefactor.Proofs.Text.Cut

/-!
# Edits that stay apart

Edits of one file that are given in the order of their positions, and of which none overlaps or
repeats another, are in normal form already. They are applied from the last to the first, so each
finds the text before it as it was. For edits in order this is the same as replacing all their ranges
at once, with offsets taken in the text as it was, and nothing outside the range that they lie in is
touched.
-/

namespace ClassRefactor

theorem Range.isLE_order {a b : Range}
    (h : a.start < b.start ∨ a.start = b.start ∧ a.stop ≤ b.stop) : (a.order b).isLE = true := by
  unfold Range.order
  rcases h with h | ⟨h, hstop⟩
  · have : compare a.start b.start = .lt := Nat.compare_eq_lt.mpr h
    simp [this]
  · have : compare a.start b.start = .eq := Nat.compare_eq_eq.mpr h
    simp only [this, Ordering.eq_then, Nat.isLE_compare]
    exact hstop

namespace TextEdit

/-- Edits none of which begins before the one before it has ended. -/
structure InTurn (edits : List TextEdit) : Prop where
  ordered : ∀ e ∈ edits, e.range.start ≤ e.range.stop
  apart : edits.Pairwise fun a b => a.range.stop ≤ b.range.start

namespace InTurn

variable {e : TextEdit} {edits : List TextEdit}

theorem tail (h : InTurn (e :: edits)) : InTurn edits :=
  ⟨fun f hf => h.ordered f (List.mem_cons_of_mem _ hf), (List.pairwise_cons.mp h.apart).2⟩

theorem pairwise_isLE (h : InTurn edits) :
    edits.Pairwise fun a b => (a.range.order b.range).isLE = true := by
  refine h.apart.imp_of_mem fun {a b} ha hb hab => Range.isLE_order ?_
  have := h.ordered a ha
  have := h.ordered b hb
  omega

theorem of_append {later : List TextEdit} (h : InTurn (edits ++ later)) :
    InTurn edits ∧ InTurn later := by
  obtain ⟨hleft, hright, -⟩ := List.pairwise_append.mp h.apart
  exact ⟨⟨fun e he => h.ordered e (List.mem_append_left _ he), hleft⟩,
    ⟨fun e he => h.ordered e (List.mem_append_right _ he), hright⟩⟩

/-- Edits in turn are in the order of their positions. -/
theorem byPosition_eq (h : InTurn edits) : byPosition edits = edits :=
  List.mergeSort_of_pairwise h.pairwise_isLE

end InTurn

/-- Edits of one file in order, none overlapping or repeating another. -/
structure Apart (edits : List TextEdit) : Prop where
  ordered : ∀ e ∈ edits, e.range.start ≤ e.range.stop
  apart : edits.Pairwise fun a b =>
    a.file = b.file ∧ a.range.stop ≤ b.range.start ∧ a.range ≠ b.range

namespace Apart

variable {e : TextEdit} {edits : List TextEdit}

theorem tail (h : Apart (e :: edits)) : Apart edits :=
  ⟨fun f hf => h.ordered f (List.mem_cons_of_mem _ hf), (List.pairwise_cons.mp h.apart).2⟩

theorem head (h : Apart (e :: edits)) {f : TextEdit} (hf : f ∈ edits) :
    e.file = f.file ∧ e.range.stop ≤ f.range.start ∧ e.range ≠ f.range :=
  (List.pairwise_cons.mp h.apart).1 f hf

theorem inTurn (h : Apart edits) : InTurn edits :=
  ⟨h.ordered, h.apart.imp fun hab => hab.2.1⟩

theorem dropRepeats_eq (h : Apart edits) : dropRepeats edits = edits := by
  induction edits with
  | nil => rfl
  | cons e rest ih =>
    cases rest with
    | nil => rfl
    | cons f rest =>
      have hne : e ≠ f := fun heq => (h.head List.mem_cons_self).2.2 (by rw [heq])
      simp [dropRepeats, hne, ih h.tail]

theorem sorted_eq (h : Apart edits) : sorted edits = edits := by
  have hsort : edits.mergeSort (fun a b => (a.order b).isLE) = edits := by
    refine List.mergeSort_of_pairwise ?_
    refine (h.apart.and h.inTurn.pairwise_isLE).imp fun {a b} hab => ?_
    simpa [order, hab.1.1] using hab.2
  rw [sorted, hsort, h.dropRepeats_eq]

theorem mergeFrom_eq (h : Apart (e :: edits)) : mergeFrom e edits = .ok (e :: edits) := by
  induction edits generalizing e with
  | nil => rfl
  | cons f rest ih =>
    obtain ⟨-, hle, hne⟩ := h.head List.mem_cons_self
    simp [mergeFrom, hne, Nat.not_lt.mpr hle, ih h.tail, Except.map]

/-- Edits that stay apart are left as they are. -/
theorem normalized_eq (h : Apart edits) :
    WorkspaceEdit.normalized { edits } = .ok { edits } := by
  simp only [WorkspaceEdit.normalized, h.sorted_eq]
  cases edits with
  | nil => rfl
  | cons e rest => simp [merge, h.mergeFrom_eq, Except.map]

end Apart

/-- An edit between two boundaries. -/
theorem applyTo_append (e : TextEdit) {a b c : Text} (hstart : e.range.start = Text.size a)
    (hstop : e.range.stop = Text.size a + Text.size b) :
    e.applyTo (a ++ b ++ c) = .ok (a ++ e.replacement.toList ++ c) := by
  have hbefore : Text.before (a ++ b ++ c) (Text.size a) = a := by
    rw [List.append_assoc, Text.before_append]
  have hsize : Text.size a + Text.size b = Text.size (a ++ b) := by simp
  have hafter : Text.after (a ++ b ++ c) (Text.size (a ++ b)) = c := Text.after_append ..
  have hfront : Text.isBoundary (a ++ b ++ c) (Text.size a) = true := by
    rw [List.append_assoc]
    exact Text.isBoundary_append_left (Text.isBoundary_size a) _
  have hback : Text.isBoundary (a ++ b ++ c) (Text.size (a ++ b)) = true :=
    Text.isBoundary_append_left (Text.isBoundary_size _) _
  simp only [applyTo, hstart, hstop, hsize, hfront, hback, hbefore, hafter, Bool.and_true]
  simp

/-- An edit that inserts text. -/
theorem applyTo_emptyAt (e : TextEdit) {a c : Text} (h : e.range = .emptyAt (Text.size a)) :
    e.applyTo (a ++ c) = .ok (a ++ e.replacement.toList ++ c) := by
  have := e.applyTo_append (a := a) (b := []) (c := c) (by rw [h]; rfl) (by rw [h]; rfl)
  rwa [List.append_nil] at this

end TextEdit

namespace Text

theorem applyEdits_nil (t : Text) : t.applyEdits [] = .ok t := by
  simp [applyEdits, TextEdit.byPosition]

theorem applyEdits_singleton (t : Text) (e : TextEdit) : t.applyEdits [e] = e.applyTo t := by
  simp [applyEdits, TextEdit.byPosition, Except.bind]

/-- Of edits in turn, the later ones are applied before the earlier ones. -/
theorem applyEdits_append {t u : Text} {edits later : List TextEdit}
    (h : TextEdit.InTurn (edits ++ later)) (hlater : t.applyEdits later = .ok u) :
    t.applyEdits (edits ++ later) = u.applyEdits edits := by
  obtain ⟨hleft, hright⟩ := h.of_append
  simp only [applyEdits, h.byPosition_eq, hleft.byPosition_eq, List.foldr_append]
  rw [applyEdits, hright.byPosition_eq] at hlater
  rw [hlater]

theorem applyEdits_pair (t : Text) {e f : TextEdit} (h : TextEdit.Apart [e, f]) :
    t.applyEdits [e, f] = (f.applyTo t).bind e.applyTo := by
  simp only [applyEdits, h.inTurn.byPosition_eq]
  rfl

end Text

/-- The text from `pos` on, with edits that are in order put in. -/
def Text.patched (t : Text) (pos : Nat) : List TextEdit → Text
  | [] => t.after pos
  | e :: rest => t.slice pos e.range.start ++ e.replacement.toList ++ t.patched e.range.stop rest

/-- Puts edits into a text one after another, the last one first. -/
def Text.applyFromLast (t : Text) (edits : List TextEdit) : Except EditError Text :=
  edits.foldr (fun e result => result.bind e.applyTo) (.ok t)

@[simp] theorem Text.applyFromLast_nil (t : Text) : t.applyFromLast [] = .ok t := rfl

theorem Text.applyFromLast_cons (t : Text) (e : TextEdit) (edits : List TextEdit) :
    t.applyFromLast (e :: edits) = (t.applyFromLast edits).bind e.applyTo := rfl

theorem Text.applyEdits_eq_applyFromLast (t : Text) (edits : List TextEdit) :
    t.applyEdits edits = t.applyFromLast (TextEdit.byPosition edits) := rfl

/-- Two texts that agree outside a range of the first. -/
def Text.SameOutside (t : Text) (r : Range) (t' : Text) : Prop :=
  ∃ front middle middle' back : Text, t = front ++ middle ++ back ∧ t' = front ++ middle' ++ back ∧
    front.size = r.start ∧ (front ++ middle).size = r.stop

namespace TextEdit

/-- Edits in order, none overlapping another, that lie in a range and on boundaries of a text. -/
structure Fit (t : Text) (r : Range) (edits : List TextEdit) : Prop where
  boundary : ∀ e ∈ edits, t.isBoundary e.range.start = true ∧ t.isBoundary e.range.stop = true
  within : ∀ e ∈ edits,
    r.start ≤ e.range.start ∧ e.range.start ≤ e.range.stop ∧ e.range.stop ≤ r.stop
  apart : edits.Pairwise fun a b => a.range.stop ≤ b.range.start

namespace Fit

variable {t : Text} {r : Range} {e : TextEdit} {edits : List TextEdit}

theorem tail (h : Fit t r (e :: edits)) : Fit t r edits :=
  ⟨fun f hf => h.boundary f (List.mem_cons_of_mem _ hf),
    fun f hf => h.within f (List.mem_cons_of_mem _ hf), (List.pairwise_cons.mp h.apart).2⟩

theorem mono {outer : Range} (h : Fit t r edits) (hstart : outer.start ≤ r.start)
    (hstop : r.stop ≤ outer.stop) : Fit t outer edits := by
  refine ⟨h.boundary, fun e he => ?_, h.apart⟩
  have := h.within e he
  omega

theorem inTurn (h : Fit t r edits) : InTurn edits :=
  ⟨fun e he => (h.within e he).2.1, h.apart⟩

/-- The induction is on the edits: the later ones are in already and lie after the first, so the
text up to the end of the first is still as it was. -/
theorem applyFromLast_eq (h : Fit t r edits) {pos : Nat} (hpos : t.isBoundary pos = true)
    (hle : ∀ e ∈ edits, pos ≤ e.range.start) :
    t.applyFromLast edits = .ok (t.before pos ++ t.patched pos edits) := by
  induction edits generalizing pos with
  | nil => rw [Text.patched, Text.before_append_after, Text.applyFromLast_nil]
  | cons e rest ih =>
    obtain ⟨hstart, hstop⟩ := h.boundary e List.mem_cons_self
    obtain ⟨-, hordered, -⟩ := h.within e List.mem_cons_self
    have hfront := hle e List.mem_cons_self
    have hlater : ∀ f ∈ rest, e.range.stop ≤ f.range.start := (List.pairwise_cons.mp h.apart).1
    have hsize : (t.before e.range.start).size = e.range.start := by
      simpa [Text.isBoundary] using hstart
    have hwidth : e.range.stop =
        (t.before e.range.start).size + (t.slice e.range.start e.range.stop).size := by
      rw [← Text.size_append, Text.before_append_slice hstart hstop hordered]
      have : (t.before e.range.stop).size = e.range.stop := by
        simpa [Text.isBoundary] using hstop
      exact this.symm
    rw [Text.applyFromLast_cons, ih h.tail hstop hlater,
      ← Text.before_append_slice hstart hstop hordered]
    simp only [Except.bind]
    rw [applyTo_append e hsize.symm hwidth, Text.patched,
      ← Text.before_append_slice hpos hstart hfront]
    simp only [List.append_assoc]

/-- Edits in order replace all their ranges at once. -/
theorem applyEdits_eq (h : Fit t r edits) {pos : Nat} (hpos : t.isBoundary pos = true)
    (hle : ∀ e ∈ edits, pos ≤ e.range.start) :
    t.applyEdits edits = .ok (t.before pos ++ t.patched pos edits) := by
  rw [Text.applyEdits_eq_applyFromLast, h.inTurn.byPosition_eq, h.applyFromLast_eq hpos hle]

theorem exists_patched_eq (h : Fit t r edits) (hr : t.isBoundary r.stop = true) {pos : Nat}
    (hpos : t.isBoundary pos = true) (hle : pos ≤ r.stop) :
    ∃ middle, t.patched pos edits = middle ++ t.after r.stop := by
  induction edits generalizing pos with
  | nil => exact ⟨t.slice pos r.stop, (Text.slice_append_after hpos hr hle).symm⟩
  | cons e rest ih =>
    obtain ⟨-, hstop⟩ := h.boundary e List.mem_cons_self
    obtain ⟨-, -, hlast⟩ := h.within e List.mem_cons_self
    obtain ⟨middle, hmiddle⟩ := ih h.tail hstop hlast
    refine ⟨t.slice pos e.range.start ++ e.replacement.toList ++ middle, ?_⟩
    rw [Text.patched, hmiddle, List.append_assoc _ middle]

/-- Edits that fit a range apply, and what stands outside the range stays as it is. -/
theorem exists_applyEdits (h : Fit t r edits) (hstart : t.isBoundary r.start = true)
    (hstop : t.isBoundary r.stop = true) (hle : r.start ≤ r.stop) :
    ∃ t', t.applyEdits edits = .ok t' ∧ t.SameOutside r t' := by
  obtain ⟨front, inner, back, rfl, hfront, hinner⟩ := Text.split_at_boundaries hstart hstop hle
  have hsize : r.stop = (front ++ inner).size := by rw [Text.size_append, hinner]
  obtain ⟨middle, hmiddle⟩ := h.exists_patched_eq hstop hstart hle
  refine ⟨_, h.applyEdits_eq hstart fun e he => (h.within e he).1, front, inner, middle, back, rfl,
    ?_, hfront, hsize.symm⟩
  rw [hmiddle, hsize, Text.after_append, ← hfront, List.append_assoc front, Text.before_append,
    List.append_assoc]

end Fit

end TextEdit

end ClassRefactor
