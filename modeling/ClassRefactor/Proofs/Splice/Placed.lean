import ClassRefactor.Proofs.Action.Resolve
import ClassRefactor.Proofs.Edit.Apart

/-!
# Replacements in their places

The replacements for a member choose their places by themselves: at its parameters, before the brace
of its block, before its name, or all of it. All of them lie within the member, and those for one
member come in order. As members do not overlap, neither do the replacements for all members that are
there.
-/

namespace ClassRefactor

namespace Replacement

/-- Replacements of a range of a text, cut at its boundaries. They come in order, none overlapping
or sharing its place with another. -/
structure Placed (t : Text) (r : Range) (rs : List Replacement) : Prop where
  boundary : ∀ e ∈ rs, t.isBoundary e.range.start = true ∧ t.isBoundary e.range.stop = true
  within : ∀ e ∈ rs, r.start ≤ e.range.start ∧ e.range.start ≤ e.range.stop ∧
    e.range.start < r.stop ∧ e.range.stop ≤ r.stop
  apart : rs.Pairwise fun a b => a.range.start < b.range.start ∧ a.range.stop ≤ b.range.start

namespace Placed

variable {t : Text} {r s : Range} {rs ss : List Replacement}

theorem nil : Placed t r [] := ⟨by simp, by simp, .nil⟩

theorem singleton {e : Replacement}
    (hboundary : t.isBoundary e.range.start = true ∧ t.isBoundary e.range.stop = true)
    (hwithin : r.start ≤ e.range.start ∧ e.range.start ≤ e.range.stop ∧
      e.range.start < r.stop ∧ e.range.stop ≤ r.stop) : Placed t r [e] :=
  ⟨by simpa using hboundary, by simpa using hwithin, by simp⟩

theorem mono (h : Placed t r rs) (hstart : s.start ≤ r.start) (hstop : r.stop ≤ s.stop) :
    Placed t s rs := by
  refine ⟨h.boundary, fun e he => ?_, h.apart⟩
  have := h.within e he
  omega

/-- Replacements that all end before an offset lie in what precedes it. -/
theorem upTo (h : Placed t r rs) {stop : Nat}
    (hrs : ∀ e ∈ rs, e.range.start < stop ∧ e.range.stop ≤ stop) :
    Placed t ⟨r.start, stop⟩ rs := by
  refine ⟨h.boundary, fun e he => ?_, h.apart⟩
  have := h.within e he
  have := hrs e he
  simp only
  omega

/-- Replacements of one range and of another after it. -/
theorem append (h : Placed t r rs) (h' : Placed t s ss) (hr : r.start ≤ r.stop)
    (hrs : r.stop ≤ s.start) (hs : s.start ≤ s.stop) :
    Placed t ⟨r.start, s.stop⟩ (rs ++ ss) := by
  refine ⟨fun e he => ?_, fun e he => ?_, List.pairwise_append.mpr ⟨h.apart, h'.apart, ?_⟩⟩
  · exact (List.mem_append.mp he).elim (h.boundary e) (h'.boundary e)
  · simp only
    rcases List.mem_append.mp he with he | he
    · have := h.within e he
      omega
    · have := h'.within e he
      omega
  · intro a ha b hb
    have := h.within a ha
    have := h'.within b hb
    omega

theorem pairwise_isLE (h : Placed t r rs) :
    rs.Pairwise fun a b => (a.range.order b.range).isLE = true :=
  h.apart.imp fun hab => Range.isLE_order (.inl hab.1)

theorem mergeSort_eq (h : Placed t r rs) :
    (rs.mergeSort fun a b => (a.range.order b.range).isLE) = rs :=
  List.mergeSort_of_pairwise h.pairwise_isLE

theorem fit (h : Placed t r rs) (name : String) : TextEdit.Fit t r (rs.map (toEdit name)) := by
  refine ⟨fun e he => ?_, fun e he => ?_, List.pairwise_map.mpr (h.apart.imp fun hab => hab.2)⟩
  · obtain ⟨r', hr', rfl⟩ := List.mem_map.mp he
    exact h.boundary r' hr'
  · obtain ⟨r', hr', rfl⟩ := List.mem_map.mp he
    obtain ⟨hstart, hordered, -, hstop⟩ := h.within r' hr'
    exact ⟨hstart, hordered, hstop⟩

theorem edits_apart (h : Placed t r rs) (name : String) :
    TextEdit.Apart (rs.map (toEdit name)) := by
  refine ⟨fun e he => ((h.fit name).within e he).2.1, List.pairwise_map.mpr ?_⟩
  refine h.apart.imp fun {a b} hab => ⟨rfl, hab.2, fun heq => ?_⟩
  have hstart : a.range.start = b.range.start := congrArg Range.start heq
  omega

end Placed

/-- A replacement that ends before a closing delimiter, which stands before `stop`. -/
def Shut (t : Text) (stop : Nat) (r : Replacement) : Prop :=
  ∃ k, r.range.stop ≤ k ∧ k < stop ∧ (t.cells[k]? = some ')' ∨ t.cells[k]? = some '}')

end Replacement

open Replacement (Placed Shut)

variable {text : Text} {style : Style}

section

variable {callable : CallableLayout} {signature range : Range} {rs : List Replacement}
  (hlaid : callable.WellLaid text.cells signature range)
include hlaid

/-- Appended parameters go before the closing parenthesis. -/
theorem CallableLayout.appendParameters_placed (hsignature : signature.stop ≤ range.stop)
    (hread : callable.Readable text.mask.cells) (hstyle : style.Blank) (added : List Parameter) :
    Placed text ⟨callable.opening, callable.closing + 1⟩
        [callable.appendParameters text style added] ∧
      Shut text range.stop (callable.appendParameters text style added) := by
  obtain ⟨s, hs, -⟩ := callable.appendParameters_spec text hstyle added
  obtain ⟨hboundary, hopening, hclosing⟩ := ParsedClass.parameterStop_spec hlaid fun p hp =>
    Text.isBoundary_of_seam (hread.params p hp).range.2.2
  have hstop := hlaid.signature_stop
  rw [hs]
  refine ⟨.singleton ⟨hboundary, hboundary⟩ ?_, callable.closing, hclosing, by omega,
    .inl hlaid.closes⟩
  simp only [Range.emptyAt]
  omega

/-- Appended statements go between the braces, after the parameters. -/
theorem BlockLayout.appendStatements_placed (hread : callable.Readable text.mask.cells)
    (hstyle : style.Blank) {block : BlockLayout} (hblock : callable.body.block? = some block)
    (added : List Statement) :
    Placed text ⟨callable.closing + 1, range.stop⟩ [block.appendStatements text style added] ∧
      Shut text range.stop (block.appendStatements text style added) := by
  have hblockLaid := hlaid.block block hblock
  have hstatements : ∀ r ∈ block.statements, text.isBoundary r.stop = true := by
    have hbody := hread.body
    cases hb : callable.body with
    | block b =>
      rw [hb] at hblock hbody
      obtain rfl := Option.some.inj hblock
      exact fun r hr => Text.isBoundary_of_seam (hbody r hr).2.2
    | expression r => rw [hb] at hblock; cases hblock
    | absent => rw [hb] at hblock; cases hblock
  obtain ⟨hinserts, hafter, -⟩ :=
    BlockLayout.appendStatements_spec hblockLaid hstatements hstyle added
  have hopening := hblockLaid.after
  have hclosing := hblockLaid.before
  have hordered := hinserts.ordered
  have hbefore := hinserts.before
  refine ⟨.singleton ⟨hinserts.start, hinserts.stop⟩ ?_, block.closing, hbefore, hclosing,
    .inr hblockLaid.closes⟩
  simp only
  omega

theorem Constructor.splice?_placed (hsignature : signature.stop ≤ range.stop)
    (hread : callable.Readable text.mask.cells) (hstyle : style.Blank) {old new : Constructor}
    (h : old.splice? text style new callable = some rs) :
    Placed text ⟨callable.opening, range.stop⟩ rs ∧ ∀ e ∈ rs, Shut text range.stop e := by
  have hparens := hlaid.ordered
  have hstop := hlaid.signature_stop
  simp only [Constructor.splice?, Option.bind_eq_bind, Option.bind_eq_some_iff] at h
  obtain ⟨params, -, statements, -, h⟩ := h
  obtain ⟨hplaced, hshut⟩ : Placed text ⟨callable.opening, callable.closing + 1⟩
      (if params.isEmpty then [] else [callable.appendParameters text style params]) ∧
      ∀ e ∈ if params.isEmpty then [] else [callable.appendParameters text style params],
        Shut text range.stop e := by
    obtain ⟨hplaced, hshut⟩ := callable.appendParameters_placed hlaid hsignature hread hstyle params
    split
    · exact ⟨.nil, by simp⟩
    · exact ⟨hplaced, by simpa using hshut⟩
  split at h
  · cases h
  · split at h
    · obtain rfl := Option.some.inj h
      exact ⟨hplaced.mono (Nat.le_refl _) (by simp only; omega), hshut⟩
    · split at h
      · rename_i block _ hblock
        obtain rfl := Option.some.inj h
        obtain ⟨hplaced', hshut'⟩ :=
          BlockLayout.appendStatements_placed hlaid hread hstyle hblock statements
        have hsides : callable.opening ≤ callable.closing + 1 ∧ callable.closing + 1 ≤ range.stop := by
          omega
        have hboth := hplaced.append hplaced' hsides.1 (Nat.le_refl _) hsides.2
        refine ⟨hboth, fun e he => ?_⟩
        rcases List.mem_append.mp he with he | he
        · exact hshut e he
        · rw [List.mem_singleton.mp he]
          exact hshut'
      · cases h

theorem Method.splice?_placed (hsignature : signature.stop ≤ range.stop)
    (hread : callable.Readable text.mask.cells) {old new : Method}
    (h : old.splice? new callable = some rs) :
    Placed text ⟨signature.start, range.stop⟩ rs ∧ ∀ e ∈ rs, Shut text range.stop e := by
  obtain ⟨h1, h2, h3⟩ := hlaid.lead
  have hopening := hlaid.lead_before
  have hparens := hlaid.ordered
  have hstop := hlaid.signature_stop
  unfold Method.splice? at h
  split at h
  · obtain rfl := Option.some.inj h
    refine ⟨.singleton ⟨Text.isBoundary_of_seam hread.lead.2.1,
      Text.isBoundary_of_seam hread.lead.2.2⟩ ?_, fun e he => ?_⟩
    · simp only
      omega
    · rw [List.mem_singleton.mp he]
      exact ⟨callable.closing, by simp only; omega, by omega, .inl hlaid.closes⟩
  · cases h

end

namespace MemberLayout

/-- A member is written anew, or changed at the places of a constructor or method. -/
theorem splice_cases (m : MemberLayout) (text : Text) (style : Style) (old new : Member) :
    m.splice text style old new = [m.reprint text style new] ∨
      ∃ callable, m.shape.callable? = some callable ∧
        ((∃ k k' : Constructor,
            k.splice? text style k' callable = some (m.splice text style old new)) ∨
          ∃ k k' : Method, k.splice? k' callable = some (m.splice text style old new)) := by
  unfold splice
  split
  · rename_i k k' callable hcallable
    cases h : k.splice? text style k' callable with
    | none => exact .inl rfl
    | some rs => exact .inr ⟨callable, hcallable, .inl ⟨k, k', h⟩⟩
  · rename_i k k' callable hcallable
    cases h : k.splice? k' callable with
    | none => exact .inl rfl
    | some rs => exact .inr ⟨callable, hcallable, .inr ⟨k, k', h⟩⟩
  · exact .inl rfl

/-- The replacements for a member lie within it. Unless it is written anew, they end before one of
its closing delimiters. -/
theorem splice_placed {m : MemberLayout} (hlaid : m.WellLaid text.cells)
    (hread : m.Readable text.mask.cells) (hne : m.range.start < m.range.stop)
    (hstyle : style.Blank) (old new : Member) :
    Placed text m.range (m.splice text style old new) ∧
      (m.splice text style old new = [m.reprint text style new] ∨
        ∀ e ∈ m.splice text style old new, Shut text m.range.stop e) := by
  obtain ⟨hstart, -, hstop⟩ := hlaid.signature
  rcases m.splice_cases text style old new with heq | ⟨callable, hcallable, hspliced⟩
  · refine ⟨?_, .inl heq⟩
    rw [heq]
    exact .singleton ⟨Text.isBoundary_of_seam hread.range.2.1,
      Text.isBoundary_of_seam hread.range.2.2⟩
      ⟨Nat.le_refl _, Nat.le_of_lt hne, hne, Nat.le_refl _⟩
  · have hcallableLaid := hlaid.callable callable hcallable
    have hcallableRead := hread.shape.callable hcallable
    have hlead := hcallableLaid.lead
    have hopening := hcallableLaid.lead_before
    rcases hspliced with ⟨k, k', h⟩ | ⟨k, k', h⟩
    · obtain ⟨hplaced, hshut⟩ :=
        Constructor.splice?_placed hcallableLaid hstop hcallableRead hstyle h
      exact ⟨hplaced.mono (by simp only; omega) (Nat.le_refl _), .inr hshut⟩
    · obtain ⟨hplaced, hshut⟩ := Method.splice?_placed hcallableLaid hstop hcallableRead h
      exact ⟨hplaced.mono hstart (Nat.le_refl _), .inr hshut⟩

end MemberLayout

namespace ParsedClass

/-- Each replacement for the members that are there is one for some member. -/
theorem exists_of_mem_spliceMembers {olds : List Member} {layouts : List MemberLayout}
    {news : List Member} {e : Replacement}
    (h : e ∈ spliceMembers text style olds layouts news) :
    ∃ m ∈ layouts, ∃ old new, e ∈ m.splice text style old new := by
  induction layouts generalizing olds news with
  | nil => simp [spliceMembers] at h
  | cons m layouts ih =>
    cases olds with
    | nil => simp [spliceMembers] at h
    | cons old olds =>
      cases news with
      | nil => simp [spliceMembers] at h
      | cons new news =>
        rw [spliceMembers, List.mem_append] at h
        rcases h with h | h
        · split at h
          · cases h
          · exact ⟨m, List.mem_cons_self, old, new, h⟩
        · obtain ⟨m', hm', hsplice⟩ := ih h
          exact ⟨m', List.mem_cons_of_mem _ hm', hsplice⟩

/-- The replacements for the members that are there stay apart as the members do. -/
theorem spliceMembers_placed {lo hi : Nat} {layouts : List MemberLayout}
    (hlaid : Range.Laid lo hi (layouts.map MemberLayout.range)) (hle : lo ≤ hi)
    (hmembers : ∀ m ∈ layouts, m.WellLaid text.cells ∧ m.Readable text.mask.cells)
    (hstyle : style.Blank) (olds news : List Member) :
    Placed text ⟨lo, hi⟩ (spliceMembers text style olds layouts news) := by
  induction layouts generalizing lo olds news with
  | nil => simpa [spliceMembers] using Placed.nil
  | cons m layouts ih =>
    cases olds with
    | nil => simpa [spliceMembers] using Placed.nil
    | cons old olds =>
      cases news with
      | nil => simpa [spliceMembers] using Placed.nil
      | cons new news =>
        obtain ⟨hlo, hne, hhi⟩ := hlaid.within m.range (by simp)
        obtain ⟨hm, hread⟩ := hmembers m List.mem_cons_self
        have hrest := ih hlaid.tail hhi (fun m' hm' => hmembers m' (List.mem_cons_of_mem _ hm'))
          olds news
        have hfirst : Placed text m.range
            (if old == new then [] else m.splice text style old new) := by
          split
          · exact .nil
          · exact (MemberLayout.splice_placed hm hread hne hstyle old new).1
        rw [spliceMembers]
        exact (hfirst.append hrest (Nat.le_of_lt hne) (Nat.le_refl _) hhi).mono hlo (Nat.le_refl _)

end ParsedClass

end ClassRefactor
