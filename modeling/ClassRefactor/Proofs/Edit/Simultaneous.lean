import Mathlib.Data.List.Chain
import ClassRefactor.Proofs.Edit.Apart
import ClassRefactor.Proofs.Edit.Normal

/-!
# Applying edits is replacing at once

Each edit is checked against the text as edited so far. For edits that keep clear of each other that
makes no difference: the edits after it have left everything up to its end as it was. So edits apply
if each of them fits the text as given, and they then replace their ranges all at once.
-/

namespace ClassRefactor

/-- Up to the end of an initial segment, the boundaries of a text are those of the segment. -/
theorem Text.isBoundary_append_of_le {s : Text} {n : Nat} (hn : n ≤ s.size) (u : Text) :
    Text.isBoundary (s ++ u) n = s.isBoundary n := by
  rw [Bool.eq_iff_iff]
  refine ⟨fun h => ?_, fun h => isBoundary_append_left h u⟩
  obtain ⟨a, b, hsplit, rfl⟩ := isBoundary_iff.mp h
  rcases List.append_eq_append_iff.mp hsplit with ⟨c, rfl, rfl⟩ | ⟨c, rfl, -⟩
  · have : c = [] := by
      cases c with
      | nil => rfl
      | cons d c =>
        have := Char.utf8Size_pos d
        rw [size_append, size_cons] at hn
        omega
    simp [this]
  · exact isBoundary_iff.mpr ⟨a, c, rfl, rfl⟩

namespace TextEdit

/-- An edit of a range that ends within a text and does so, like it begins, between two of its
characters. -/
structure Lands (t : Text) (e : TextEdit) : Prop where
  within : e.range.stop ≤ t.size
  start : t.isBoundary e.range.start = true
  stop : t.isBoundary e.range.stop = true

instance (t : Text) (e : TextEdit) : Decidable (e.Lands t) :=
  decidable_of_iff (e.range.stop ≤ t.size ∧ t.isBoundary e.range.start = true ∧
      t.isBoundary e.range.stop = true)
    ⟨fun ⟨within, start, stop⟩ => ⟨within, start, stop⟩, fun h => ⟨h.within, h.start, h.stop⟩⟩

theorem applyTo_of_not_lands {t : Text} {e : TextEdit} (h : ¬ e.Lands t) :
    e.applyTo t = .error (.outOfBounds e.file e.range t.size) := by
  rw [applyTo, if_neg]
  simp only [Bool.and_eq_true, decide_eq_true_eq]
  rintro ⟨⟨hwithin, hstart⟩, hstop⟩
  exact h ⟨hwithin, hstart, hstop⟩

/-- Whether an edit fits is decided by what stands up to its end. -/
theorem lands_append_iff {s : Text} {e : TextEdit} (hordered : e.range.start ≤ e.range.stop)
    (hstop : e.range.stop ≤ s.size) (u : Text) : e.Lands (s ++ u) ↔ e.Lands s := by
  have hstart : e.range.start ≤ s.size := hordered.trans hstop
  constructor
  · intro h
    refine ⟨hstop, ?_, ?_⟩
    · rw [← Text.isBoundary_append_of_le hstart u]
      exact h.start
    · rw [← Text.isBoundary_append_of_le hstop u]
      exact h.stop
  · intro h
    exact ⟨by rw [Text.size_append]; omega, Text.isBoundary_append_left h.start u,
      Text.isBoundary_append_left h.stop u⟩

namespace InTurn

variable {t out : Text} {e : TextEdit} {edits : List TextEdit}

/-- It is enough that each edit ends before the next one begins. -/
theorem of_isChain (hordered : ∀ e ∈ edits, e.range.start ≤ e.range.stop)
    (h : edits.IsChain fun a b => a.range.stop ≤ b.range.start) : InTurn edits := by
  have : IsTrans TextEdit fun a b =>
      a.range.stop ≤ b.range.start ∧ b.range.start ≤ b.range.stop :=
    ⟨fun a b c hab hbc => ⟨by omega, hbc.2⟩⟩
  have hchain : edits.IsChain fun a b =>
      a.range.stop ≤ b.range.start ∧ b.range.start ≤ b.range.stop :=
    h.imp_of_mem_imp fun a b _ hb hab => ⟨hab, hordered b hb⟩
  exact ⟨hordered, (List.isChain_iff_pairwise.mp hchain).imp fun hab => hab.1⟩

theorem fit (h : InTurn edits) (hlands : ∀ e ∈ edits, e.Lands t) : Fit t ⟨0, t.size⟩ edits :=
  ⟨fun e he => ⟨(hlands e he).start, (hlands e he).stop⟩,
    fun e he => ⟨Nat.zero_le _, h.ordered e he, (hlands e he).within⟩, h.apart⟩

/-- Edits that are in have not changed whether an edit before them fits. The text up to the first of
them is as it was. -/
theorem lands_iff (h : InTurn (e :: edits)) (hlands : ∀ f ∈ edits, f.Lands t)
    (hout : t.applyFromLast edits = .ok out) : e.Lands out ↔ e.Lands t := by
  obtain ⟨hlater, hrest⟩ := List.pairwise_cons.mp h.apart
  cases edits with
  | nil => rw [← Except.ok.inj hout]
  | cons f rest =>
    have hboundary : t.isBoundary f.range.start = true := (hlands f List.mem_cons_self).start
    have hfront : ∀ g ∈ f :: rest, f.range.start ≤ g.range.start := by
      intro g hg
      rcases List.mem_cons.mp hg with rfl | hg
      · exact Nat.le_refl _
      · have := (List.pairwise_cons.mp hrest).1 g hg
        have := h.ordered f (List.mem_cons_of_mem _ List.mem_cons_self)
        omega
    rw [(h.tail.fit hlands).applyFromLast_eq hboundary hfront] at hout
    have hsize : (t.before f.range.start).size = f.range.start := by
      simpa [Text.isBoundary] using hboundary
    have hordered := h.ordered e List.mem_cons_self
    have hstop : e.range.stop ≤ (t.before f.range.start).size := by
      rw [hsize]
      exact hlater f List.mem_cons_self
    rw [← Except.ok.inj hout, lands_append_iff hordered hstop]
    conv_rhs => rw [← Text.before_append_after t f.range.start]
    rw [lands_append_iff hordered hstop]

/-- One edit that does not fit the text as given is enough to fail. The induction is on the edits;
if all later ones fit, they are in and the first one is still judged as on the text as given. -/
theorem exists_applyFromLast_eq_error (h : InTurn edits) (hbad : ∃ e ∈ edits, ¬ e.Lands t) :
    ∃ file range size,
      t.applyFromLast edits = .error (.outOfBounds file range size) := by
  induction edits with
  | nil => simp at hbad
  | cons e rest ih =>
    by_cases hrest : ∃ f ∈ rest, ¬ f.Lands t
    · obtain ⟨file, range, size, herror⟩ := ih h.tail hrest
      exact ⟨file, range, size, by rw [Text.applyFromLast_cons, herror]; rfl⟩
    · have hlands : ∀ f ∈ rest, f.Lands t := by simpa using hrest
      have he : ¬ e.Lands t := by
        obtain ⟨g, hg, hg'⟩ := hbad
        rcases List.mem_cons.mp hg with rfl | hg
        · exact hg'
        · exact absurd (hlands g hg) hg'
      have hout := (h.tail.fit hlands).applyFromLast_eq (Text.isBoundary_zero t)
        fun f _ => Nat.zero_le _
      rw [← h.lands_iff hlands hout] at he
      refine ⟨e.file, e.range, (t.before 0 ++ t.patched 0 rest).size, ?_⟩
      rw [Text.applyFromLast_cons, hout]
      exact applyTo_of_not_lands he

end InTurn

/-- Edits of one range keep their order when they are put in order. -/
theorem filter_byPosition (r : Range) (edits : List TextEdit) :
    (byPosition edits).filter (·.range == r) = edits.filter (·.range == r) := by
  rw [byPosition, filter_mergeSort positionLe_trans positionLe_total]
  apply List.mergeSort_of_pairwise
  refine List.pairwise_of_forall_mem_list fun a ha b hb => ?_
  have hra : a.range = r := by simpa using (List.mem_filter.mp ha).2
  have hrb : b.range = r := by simpa using (List.mem_filter.mp hb).2
  rw [positionLe, hra, hrb]
  exact Range.isLE_order (.inr ⟨rfl, Nat.le_refl _⟩)

theorem mem_byPosition {e : TextEdit} {edits : List TextEdit} : e ∈ byPosition edits ↔ e ∈ edits :=
  (List.mergeSort_perm ..).mem_iff

theorem pairwise_byPosition (edits : List TextEdit) :
    (byPosition edits).Pairwise fun a b => positionLe a b = true :=
  List.pairwise_mergeSort positionLe_trans positionLe_total edits

/-- No two edits in turn share a range that is not empty: neither ends before the other begins. -/
theorem InTurn.filter_range {edits : List TextEdit} (h : InTurn edits) {r : Range}
    (hr : r.start ≠ r.stop) :
    edits.filter (·.range == r) = [] ∨ ∃ e, edits.filter (·.range == r) = [e] := by
  have hapart := h.apart.filter (·.range == r)
  have hmem : ∀ e ∈ edits.filter (·.range == r), e.range = r ∧ r.start ≤ r.stop := by
    intro e he
    obtain ⟨he, hrange⟩ := List.mem_filter.mp he
    have hrange : e.range = r := eq_of_beq hrange
    exact ⟨hrange, hrange ▸ h.ordered e he⟩
  generalize edits.filter (·.range == r) = picked at hapart hmem
  match picked with
  | [] => exact .inl rfl
  | [e] => exact .inr ⟨e, rfl⟩
  | e :: f :: rest =>
    obtain ⟨he, hordered⟩ := hmem e List.mem_cons_self
    obtain ⟨hf, -⟩ := hmem f (List.mem_cons_of_mem _ List.mem_cons_self)
    have hle := (List.pairwise_cons.mp hapart).1 f List.mem_cons_self
    rw [he, hf] at hle
    exact absurd (Nat.le_antisymm hordered hle) hr

/-- Edits in turn are put in order in one way only, as long as the insertions at each place keep
their order. -/
theorem byPosition_congr {edits edits' : List TextEdit} (h : InTurn (byPosition edits))
    (hperm : edits.Perm edits')
    (hinserts : ∀ offset, edits.filter (·.range == .emptyAt offset) =
      edits'.filter (·.range == .emptyAt offset)) :
    byPosition edits = byPosition edits' := by
  refine eq_of_filter_key_eq TextEdit.range (fun a b hab hba => ?_)
    (pairwise_byPosition edits) (pairwise_byPosition edits') fun r => ?_
  · have hab := Range.isLE_order_iff.mp hab
    have hba := Range.isLE_order_iff.mp hba
    obtain ⟨hstart, hstop⟩ : a.range.start = b.range.start ∧ a.range.stop = b.range.stop := by
      omega
    exact Range.mk.injEq .. ▸ ⟨hstart, hstop⟩
  · rw [filter_byPosition, filter_byPosition]
    by_cases hr : r.start = r.stop
    · have hempty : r = .emptyAt r.start := by
        obtain ⟨start, stop⟩ := r
        simp only at hr
        rw [Range.emptyAt, hr]
      rw [hempty]
      exact hinserts r.start
    · have hpicked := h.filter_range hr
      have hperm := hperm.filter (·.range == r)
      rw [filter_byPosition] at hpicked
      rcases hpicked with hnil | ⟨e, hsingle⟩
      · rw [hnil] at hperm ⊢
        exact hperm.nil_eq
      · rw [hsingle] at hperm ⊢
        exact hperm.singleton_eq

end TextEdit

namespace Text

/-- Edits of which each, in order, ends before the next one begins are applied as a simultaneous
replacement. They are refused, as out of bounds, exactly if one of them does not fit the text as
given; otherwise every range gives way to its replacement, and all else stands as it stood. The order
in which they are given counts only among insertions at one place, which are put in in that order. -/
theorem applyEdits_simultaneous (t : Text) {edits : List TextEdit}
    (hordered : ∀ e ∈ edits, e.range.start ≤ e.range.stop)
    (hchain : (TextEdit.byPosition edits).IsChain fun a b => a.range.stop ≤ b.range.start) :
    ((∃ file range size, t.applyEdits edits = .error (.outOfBounds file range size)) ↔
      ∃ e ∈ edits, ¬ e.Lands t) ∧
    ((∀ e ∈ edits, e.Lands t) →
      t.applyEdits edits = .ok (t.patched 0 (TextEdit.byPosition edits))) ∧
    (∀ offset, (TextEdit.byPosition edits).filter (·.range == .emptyAt offset) =
      edits.filter (·.range == .emptyAt offset)) ∧
    ∀ edits', edits.Perm edits' →
      (∀ offset, edits.filter (·.range == .emptyAt offset) =
        edits'.filter (·.range == .emptyAt offset)) →
      t.applyEdits edits' = t.applyEdits edits := by
  have hturn : TextEdit.InTurn (TextEdit.byPosition edits) :=
    .of_isChain (fun e he => hordered e (TextEdit.mem_byPosition.mp he)) hchain
  have hfits : (∀ e ∈ edits, e.Lands t) →
      t.applyEdits edits = .ok (t.patched 0 (TextEdit.byPosition edits)) := by
    intro hlands
    have hfit := hturn.fit fun e he => hlands e (TextEdit.mem_byPosition.mp he)
    have happlied := hfit.applyFromLast_eq (isBoundary_zero t) fun e _ => Nat.zero_le _
    rwa [before_zero, List.nil_append] at happlied
  refine ⟨⟨?_, ?_⟩, hfits, fun offset => TextEdit.filter_byPosition _ edits, ?_⟩
  · rintro ⟨file, range, size, herror⟩
    by_contra hnone
    rw [hfits (by simpa using hnone)] at herror
    cases herror
  · rintro ⟨e, he, hbad⟩
    exact hturn.exists_applyFromLast_eq_error ⟨e, TextEdit.mem_byPosition.mpr he, hbad⟩
  · intro edits' hperm hinserts
    rw [applyEdits_eq_applyFromLast, applyEdits_eq_applyFromLast,
      TextEdit.byPosition_congr hturn hperm hinserts]

/-- Edits that touch, with two insertions before a replacement of a character of two bytes. In a
text that has such a character one place further left, the insertions would fall inside it. -/
def touchingEdits : List TextEdit :=
  [⟨"C.cs", ⟨4, 5⟩, "w"⟩, ⟨"C.cs", ⟨2, 2⟩, "x"⟩, ⟨"C.cs", ⟨2, 4⟩, "i"⟩, ⟨"C.cs", ⟨2, 2⟩, "y"⟩]

theorem applyEdits_simultaneous_touchingEdits :
    (∀ e ∈ touchingEdits, e.range.start ≤ e.range.stop) ∧
      ((TextEdit.byPosition touchingEdits).IsChain fun a b => a.range.stop ≤ b.range.start) ∧
      applyEdits "naïve".toList touchingEdits = .ok "naxyiwe".toList ∧
      ∃ file range size,
        applyEdits "nïves".toList touchingEdits = .error (.outOfBounds file range size) := by
  have hordered : ∀ e ∈ touchingEdits, e.range.start ≤ e.range.stop := by decide
  have hsorted : TextEdit.byPosition touchingEdits =
      [⟨"C.cs", ⟨2, 2⟩, "x"⟩, ⟨"C.cs", ⟨2, 2⟩, "y"⟩, ⟨"C.cs", ⟨2, 4⟩, "i"⟩,
        ⟨"C.cs", ⟨4, 5⟩, "w"⟩] := by
    have hafter : compare 4 2 = .gt := by decide
    simp [touchingEdits, TextEdit.byPosition, List.mergeSort, List.MergeSort.Internal.splitInTwo,
      TextEdit.positionLe, Range.order, hafter]
  have hchain : (TextEdit.byPosition touchingEdits).IsChain
      fun a b => a.range.stop ≤ b.range.start := by
    rw [hsorted]
    decide
  have hlands : ∀ e ∈ touchingEdits, e.Lands "naïve".toList := by decide
  have hbad : ∃ e ∈ touchingEdits, ¬ e.Lands "nïves".toList := by decide
  obtain ⟨-, hfits, -, -⟩ := applyEdits_simultaneous "naïve".toList hordered hchain
  obtain ⟨hfails, -, -, -⟩ := applyEdits_simultaneous "nïves".toList hordered hchain
  refine ⟨hordered, hchain, ?_, hfails.mpr hbad⟩
  rw [hfits hlands, hsorted]
  decide

end Text

end ClassRefactor
