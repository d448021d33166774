import ClassRefactor.Proofs.Exchange.Segment
import ClassRefactor.Proofs.Written.Body

/-!
# A block with statements more

While the block of a member is open, no member ends. So what stands in front of the closing brace of
the block may be exchanged for statements, and the block then has these behind the statements that
it had.
-/

namespace ClassRefactor

namespace Segment

section

variable {code : Code} {rule : AfterBlock.Rule} {stop : Nat} {s : State} {p pos depth : Nat}

/-- Within a block a cut comes past every cell but the brace that closes it. -/
theorem advance_unclosed (hbraces : depth < s.braces) {c : Char} (hc : ¬(c = '}' ∧ depth = 0)) :
    ∃ depth', (∀ l, Code.closeFrom '{' '}' depth (c :: l) =
        (Code.closeFrom '{' '}' depth' l).map (· + 1)) ∧
      ∃ s', advance code rule stop p s pos c = some s' ∧ depth' < s'.braces := by
  by_cases hopen : c = '{'
  · subst hopen
    exact ⟨depth + 1, fun l => by rw [Code.closeFrom.eq_def]; simp, _, rfl,
      Nat.succ_lt_succ hbraces⟩
  · by_cases hclose : c = '}'
    · subst hclose
      obtain ⟨depth, rfl⟩ := Nat.exists_eq_succ_of_ne_zero (fun hzero => hc ⟨rfl, hzero⟩)
      have hinside : s.braces - 1 ≠ 0 := by omega
      refine ⟨depth, fun l => by rw [Code.closeFrom.eq_def]; simp, { s with
        start := some p, braces := s.braces - 1 }, ?_, ?_⟩
      · simp [advance, hinside]
      · change depth < s.braces - 1
        omega
    · have hinside : s.braces ≠ 0 := by omega
      refine ⟨depth, fun l => Code.closeFrom_other hopen hclose depth l, ?_⟩
      simp only [advance, beq_iff_eq, hopen, hclose, if_false, beq_eq_false_iff_ne.mpr hinside,
        Bool.and_false, Bool.false_and, Bool.false_eq_true]
      split
      · exact ⟨_, rfl, hbraces⟩
      · split
        · exact ⟨_, rfl, hbraces⟩
        · exact ⟨_, rfl, hbraces⟩

/-- Within a block that does not close in some cells, no segment ends in them. -/
theorem endedFrom_unclosed {l : Code} (hs : s.start = some p) (hbraces : depth < s.braces)
    (hl : Code.closeFrom '{' '}' depth l = none) :
    ∃ s', endedFrom code rule stop s pos l = ([], s') ∧ s'.start = some p ∧ s'.braces ≠ 0 := by
  induction l generalizing s pos depth with
  | nil => exact ⟨s, rfl, hs, by omega⟩
  | cons c l ih =>
    have hc : ¬(c = '}' ∧ depth = 0) := by
      rintro ⟨rfl, rfl⟩
      rw [Code.closeFrom.eq_def] at hl
      simp at hl
    obtain ⟨depth', hclose, next, hnext, hinside⟩ :=
      @advance_unclosed code rule stop s p pos depth hbraces c hc
    rw [hclose, Option.map_eq_none_iff] at hl
    obtain ⟨s', hrest, hstart, hbraces'⟩ :=
      @ih next (pos + 1) depth' (start_of_advance_eq_some hnext) hinside hl
    refine ⟨s', ?_, hstart, hbraces'⟩
    rw [endedFrom]
    simpa [hs, hnext] using hrest

/-- Behind the brace that opens a block a segment is open until the block closes. -/
theorem open_of_unclosed (l : Code) {r : Code} (hr : Code.closeFrom '{' '}' 0 r = none) :
    ∃ p, (endedFrom code rule stop s pos (l ++ '{' :: r)).2.start = some p ∧
      (endedFrom code rule stop s pos (l ++ '{' :: r)).2.braces ≠ 0 := by
  rw [endedFrom_append]
  generalize (endedFrom code rule stop s pos l).2 = st
  have hopens : ∃ next, advance code rule stop (st.start.getD (pos + l.length)) st (pos + l.length)
      '{' = some next ∧ 0 < next.braces := ⟨_, rfl, Nat.succ_pos _⟩
  obtain ⟨next, hnext, hinside⟩ := hopens
  obtain ⟨s', hrest, hstart, hbraces⟩ := @endedFrom_unclosed code rule stop next _
    (pos + l.length + 1) 0 r (start_of_advance_eq_some hnext) hinside hr
  have hblank : (isLayoutBlank '{') = false := rfl
  rw [endedFrom]
  simp only [hblank, Bool.and_false, Bool.false_eq_true, if_false, hnext, hrest]
  exact ⟨_, hstart, hbraces⟩

/-- Segments that are cut from some cells end behind the first of them. -/
theorem lt_stop_of_mem_rangesFrom {cells : Code} (hne : cells ≠ [])
    (hcells : pos + cells.length = stop) :
    ∀ r ∈ rangesFrom code rule stop s pos cells, pos < r.stop := by
  induction cells generalizing s pos with
  | nil => exact absurd rfl hne
  | cons c rest ih =>
    rw [List.length_cons] at hcells
    have hlater : ∀ s : State, ∀ r ∈ rangesFrom code rule stop s (pos + 1) rest, pos < r.stop := by
      intro s r hr
      cases rest with
      | nil =>
        rw [rangesFrom, Option.mem_toList] at hr
        obtain ⟨q, -, rfl⟩ := Option.map_eq_some_iff.mp hr
        change pos < stop
        omega
      | cons d rest =>
        have := @ih s (pos + 1) (by simp) (by omega) r hr
        omega
    intro r hr
    rw [rangesFrom] at hr
    simp only at hr
    split at hr
    · exact hlater s r hr
    · cases hnext : advance code rule stop (s.start.getD pos) s pos c with
      | none =>
        simp only [hnext, List.mem_cons] at hr
        rcases hr with rfl | hr
        · exact Nat.lt_succ_self pos
        · exact hlater {} r hr
      | some next =>
        simp only [hnext] at hr
        exact hlater next r hr

end

end Segment

namespace Code

theorem drop_append_of_getElem? {l : Code} {i : Nat} {c : Char} (h : l[i]? = some c) (r : Code) :
    (l ++ r).drop i = c :: (l.drop (i + 1) ++ r) := by
  obtain ⟨hlt, rfl⟩ := List.getElem?_eq_some_iff.mp h
  rw [List.drop_append_of_le_length (Nat.le_of_lt hlt), List.drop_eq_getElem_cons hlt,
    List.cons_append]

/-- Cells of a class body in which no block of a member closes: no segment ends in them. -/
theorem memberCut_unclosed {a : Code} {start opening : Nat} (hstart : start ≤ opening)
    (hopens : a[opening]? = some '{')
    (hunclosed : closeFrom '{' '}' 0 (a.drop (opening + 1)) = none) :
    ∃ p, (a.memberCut start).2.start = some p ∧ (a.memberCut start).2.braces ≠ 0 := by
  have hsplit : a.drop start = a.window start opening ++ '{' :: a.drop (opening + 1) := by
    have hdrop := drop_append_of_getElem? hopens []
    rw [List.append_nil, List.append_nil] at hdrop
    have hrest : a.drop opening = (a.drop start).drop (opening - start) := by
      rw [List.drop_drop, Nat.add_sub_cancel' hstart]
    rw [← hdrop, hrest, window, List.take_append_drop]
  rw [memberCut, hsplit]
  exact Segment.open_of_unclosed _ hunclosed

variable {a b b' c : Code} {start stop opening : Nat}

/-- The cut of a class comes to the brace that closes a block with the member open, whatever flat code
stands in front of the brace. -/
theorem ranges_to_brace {l rest : Code} {p : Nat} (hl : ∀ d ∈ l, Segment.isFlat d = true)
    (hunassigned : Unassigned (l ++ c)) (hle : start ≤ a.length)
    (hp : (a.memberCut start).2.start = some p) (hbraces : (a.memberCut start).2.braces ≠ 0)
    (hwindow : c.window 0 stop = '}' :: rest) :
    Segment.ranges (a ++ l ++ c) (a ++ l ++ c).afterMemberBlock start ((a ++ l).length + stop) =
      (a.memberCut start).1 ++ Segment.rangesFrom (a ++ l ++ c) (a ++ l ++ c).afterMemberBlock
        ((a ++ l).length + stop) (a.memberCut start).2 (a ++ l).length ('}' :: rest) := by
  rw [ranges_between hunassigned hle, hwindow,
    Segment.rangesFrom_flat hp fun d hd => ⟨hl d hd, fun _ => hbraces⟩, List.length_append]

/-- What the brace does to the member depends on what follows it only. -/
theorem advance_brace (l : Code) (hstop : stop ≤ c.length) (p : Nat) (s : Segment.State) :
    Segment.advance (l ++ c) (l ++ c).afterMemberBlock (l.length + stop) p s l.length '}' =
      Segment.advance c c.afterMemberBlock stop p s 0 '}' := by
  have := @Segment.advance_congr c (l ++ c) c.afterMemberBlock (l ++ c).afterMemberBlock stop
    (l.length + stop) p p 0 l.length s '}' (fun h => absurd h (by decide))
    (fun _ => (afterMemberBlock_behind l hstop p p 1).symm) s.start
  rw [this]
  cases hnext : Segment.advance c c.afterMemberBlock stop p s 0 '}' with
  | none => rfl
  | some next =>
    have hkeep := Segment.start_of_advance_eq_some hnext
    rw [Option.map_some, ← hkeep]

/-- Where the member ends with the brace, what follows is cut on its own. -/
theorem rangesFrom_behind_brace (l : Code) (hstop : stop ≤ c.length) (hpos : 0 < stop) :
    Segment.rangesFrom (l ++ c) (l ++ c).afterMemberBlock (l.length + stop) {} (l.length + 1)
        (c.window 1 stop) =
      (Segment.rangesFrom c c.afterMemberBlock stop {} 1 (c.window 1 stop)).map
        (Range.shift l.length) := by
  have hnone : ∀ s : Nat, (none : Option Nat) = some s → s ≤ 1 := by simp
  exact @Segment.rangesFrom_shift _ _ _ _ _ _ (shows_right l c) hstop
    (fun s after _ _ _ => afterMemberBlock_behind l hstop _ s after) {} 1 _ hnone hpos rfl

/-- In front of the brace that closes the block of a member, flat code may be exchanged: the members
of the class correspond one by one. -/
theorem memberRanges_filled (hb : ∀ d ∈ b, Segment.isFlat d = true)
    (hb' : ∀ d ∈ b', Segment.isFlat d = true) (hunassigned : Unassigned (b ++ c))
    (hunassigned' : Unassigned (b' ++ c)) (hstart : start ≤ opening)
    (hopens : a[opening]? = some '{')
    (hunclosed : closeFrom '{' '}' 0 (a.drop (opening + 1)) = none) (hbrace : c.head? = some '}')
    (hpos : 0 < stop) (hstop : stop ≤ c.length) {r : Range}
    (hr : r ∈ (a ++ b ++ c).memberRanges start ((a ++ b).length + stop))
    (hend : r.stop = (a ++ b).length + 1) :
    List.Forall₂ (Range.Moved a b b') ((a ++ b ++ c).memberRanges start ((a ++ b).length + stop))
      ((a ++ b' ++ c).memberRanges start ((a ++ b').length + stop)) := by
  have hlt := (List.getElem?_eq_some_iff.mp hopens).1
  have hle : start ≤ a.length := by omega
  obtain ⟨p, hp, hbraces⟩ := memberCut_unclosed hstart hopens hunclosed
  have hbefore := start_memberCut hp
  obtain ⟨rest, hwindow⟩ : ∃ rest, c.window 0 stop = '}' :: rest := by
    obtain ⟨tail, rfl⟩ := List.head?_eq_some_iff.mp hbrace
    obtain ⟨stop, rfl⟩ := Nat.exists_eq_succ_of_ne_zero (Nat.ne_of_gt hpos)
    exact ⟨_, rfl⟩
  obtain rfl : rest = c.window 1 stop := (window_eq_cons hwindow).2.2
  have hmember := (List.mem_filter.mp hr).1
  refine memberRanges_moved_of_ranges ?_
  rw [ranges_to_brace hb hunassigned hle hp hbraces hwindow, List.mem_append] at hmember
  rw [ranges_to_brace hb hunassigned hle hp hbraces hwindow,
    ranges_to_brace hb' hunassigned' hle hp hbraces hwindow]
  refine List.rel_append (moved_memberCut hle) ?_
  have hinside : (a ++ b).length < r.stop := by omega
  have hmember := hmember.resolve_left fun h => by
    have := (within_memberCut hle r h).2.1
    rw [List.length_append] at hinside
    omega
  have hlong : ∀ l : Code, p < (a ++ l).length := fun l => by
    rw [List.length_append]
    omega
  have haround : ∀ {n : Nat}, 0 < n → Range.Moved a b b' ⟨p, (a ++ b).length + n⟩
      ⟨p, (a ++ b').length + n⟩ := fun hn => .around (Nat.le_of_lt hbefore) (hlong b) (hlong b') hn
  simp only [Segment.rangesFrom, hp, Option.isNone_some, Bool.false_and, Bool.false_eq_true,
    if_false, Option.getD_some, advance_brace _ hstop] at hmember ⊢
  cases hnext : Segment.advance c c.afterMemberBlock stop p (a.memberCut start).2 0 '}' with
  | none =>
    refine .cons (haround Nat.one_pos) ?_
    simp only [rangesFrom_behind_brace _ hstop hpos, List.forall₂_map_left_iff,
      List.forall₂_map_right_iff]
    exact List.forall₂_same.mpr fun r _ => .behind r
  | some next =>
    -- The class ends behind the brace.
    have hkeep := Segment.start_of_advance_eq_some hnext
    simp only [hnext] at hmember
    cases hrest : c.window 1 stop with
    | nil =>
      simp only [Segment.rangesFrom, hkeep, Option.map_some, Option.toList_some]
      exact .cons (haround hpos) .nil
    | cons d rest =>
      have hlength : stop = 1 + (d :: rest).length := by
        rw [← hrest, length_window_of_le hstop]
        omega
      rw [hrest] at hmember
      have := Segment.lt_stop_of_mem_rangesFrom (by simp) (by rw [hlength]; omega) r hmember
      omega

/-! The statements of a block. -/

/-- The words that carry on a statement whose block they follow. -/
def continuations : List String := ["else", "catch", "finally", "while"]

/-- Code that does not carry on a statement whose block it follows. -/
def Apposite (t : Code) : Prop :=
  ∀ w ∈ continuations, (t.dropWhile isLayoutBlank).takeWhile isIdentCell ≠ w.toList

theorem apposite_blanks {b : Code} (hb : ∀ c ∈ b, isLayoutBlank c = true) : Apposite b := by
  rw [Apposite, List.dropWhile_eq_nil_iff.mpr hb]
  decide

theorem drop_leading (p : Char → Bool) (l : Code) : l.drop (leading p l) = l.dropWhile p := by
  have hsplit := List.takeWhile_append_dropWhile (p := p) (l := l)
  calc l.drop (leading p l) = (l.takeWhile p ++ l.dropWhile p).drop (leading p l) := by rw [hsplit]
    _ = l.dropWhile p := List.drop_left' rfl

theorem window_identEnd (code : Code) (i : Nat) :
    code.window i (code.identEnd i code.length) = (code.drop i).takeWhile isIdentCell := by
  rw [identEnd, window_length, window, Nat.add_sub_cancel_left]
  have hsplit := List.takeWhile_append_dropWhile (p := isIdentCell) (l := code.drop i)
  calc (code.drop i).take (leading isIdentCell (code.drop i)) =
        ((code.drop i).takeWhile isIdentCell ++ (code.drop i).dropWhile isIdentCell).take
          (leading isIdentCell (code.drop i)) := by rw [hsplit]
    _ = (code.drop i).takeWhile isIdentCell := List.take_left' rfl

/-- What follows some code matters to a block in it only if it carries a statement on. -/
theorem afterStatementBlock_append {l t : Code} {n first after : Nat} (hends : l.EndsAt n)
    (ht : Apposite t) (hfirst : first < after) (hafter : after ≤ l.length)
    (hclose : l[after - 1]? = some '}') :
    (l ++ t).afterStatementBlock first after (l ++ t).length =
      l.afterStatementBlock first after l.length := by
  rcases Nat.lt_or_ge n after with hbehind | hwithin
  · -- Only blanks follow the block in this code.
    have hblanks : ∀ c ∈ l.drop after, isLayoutBlank c = true := by
      intro c hc
      refine hends.blanks c ?_
      rw [← Nat.add_sub_cancel' (Nat.succ_le_of_lt hbehind), ← List.drop_drop] at hc
      exact List.mem_of_mem_drop hc
    have hnone : ∀ r : Code, Apposite r →
        (l ++ r).afterStatementBlock first after (l ++ r).length = .ends := by
      intro r hr
      have hskip : (l ++ r).skipBlanks after (l ++ r).length =
          l.length + leading isLayoutBlank r := by
        rw [skipBlanks, window_length, List.drop_append_of_le_length hafter, leading, leading,
          List.takeWhile_append_of_pos hblanks, List.length_append, List.length_drop]
        omega
      have hword := window_identEnd (l ++ r) (l.length + leading isLayoutBlank r)
      rw [← List.drop_drop, List.drop_left, drop_leading] at hword
      simp only [Apposite, continuations, List.forall_mem_cons] at hr
      obtain ⟨helse, hcatch, hfinally, hwhile, -⟩ := hr
      rw [afterStatementBlock, hskip, hword, beq_eq_false_iff_ne.mpr helse,
        beq_eq_false_iff_ne.mpr hcatch, beq_eq_false_iff_ne.mpr hfinally,
        beq_eq_false_iff_ne.mpr hwhile]
      rfl
    rw [hnone t ht]
    have := hnone [] (apposite_blanks (by simp))
    rw [List.append_nil] at this
    exact this.symm
  · have hshows : (l ++ t).Shows 0 l := List.prefix_append l t
    have hdo := hshows.beginsDo hfirst hafter hclose
    obtain ⟨hnext, hskip⟩ := hends.skipBlanks hwithin t
    obtain ⟨hstop, hident⟩ := hends.identEnd hnext t
    simp only [Nat.zero_add] at hdo
    simp only [afterStatementBlock, hskip, hident, window_append_left (Nat.le_trans hstop
      (Nat.le_of_lt hends.lt)), Bool.and_assoc, hdo]

/-- The cut of the statements from `start` on as far as some code goes: those that end in it, and
the state behind it. -/
def statementCut (l : Code) (start : Nat) : List Range × Segment.State :=
  Segment.endedFrom l l.afterStatementBlock l.length {} start (l.drop start)

/-- The statements of a block up to a place where none is open, and what follows them there. -/
theorem statementRanges_grown {l t : Code} {n start : Nat} (hends : l.EndsAt n)
    (hstart : start ≤ l.length) (hsettled : (l.statementCut start).2 = {}) (ht : Apposite t) :
    (l ++ t).statementRanges start (l ++ t).length = l.statementRanges start l.length ++
        (l ++ t).statementRanges l.length (l.length + t.length) ∧
      ∀ r ∈ l.statementRanges start l.length, r.stop ≤ l.length := by
  have hcut : ∀ r : Code, Apposite r →
      Segment.ranges (l ++ r) (l ++ r).afterStatementBlock start (l ++ r).length =
        (l.statementCut start).1 ++ Segment.rangesFrom (l ++ r) (l ++ r).afterStatementBlock
          (l ++ r).length {} l.length r := by
    intro r hr
    have := @Segment.ranges_append l r (l ++ r).afterStatementBlock l.afterStatementBlock start
      (l ++ r).length hstart
      (fun s after hlt _ hle hclose => afterStatementBlock_append hends hr hlt hle hclose)
      (by simp)
    rw [← statementCut, hsettled, List.take_of_length_le (by simp)] at this
    exact this
  have hold := hcut [] (apposite_blanks (by simp))
  simp only [List.append_nil, Segment.rangesFrom, Option.map_none, Option.toList_none] at hold
  have hwithin : ∀ r ∈ (l.statementCut start).1, r.stop ≤ l.length := by
    intro r hr
    obtain ⟨-, -, hle, -⟩ :=
      Segment.ends_of_mem_endedFrom (by simp) ⟨[], by rw [List.append_nil]⟩ r hr
    rw [List.length_drop] at hle
    omega
  refine ⟨?_, fun r hr => ?_⟩
  · rw [statementRanges, hcut t ht, List.map_append, statementRanges, hold, statementRanges,
      Segment.ranges, (shows_right l t).window_self, ← List.length_append]
    congr 1
    refine List.map_congr_left fun r hr => ?_
    rw [trimBlanks, trimBlanks, window_append_left (hwithin r hr)]
  · rw [statementRanges, hold] at hr
    obtain ⟨s, hs, rfl⟩ := List.mem_map.mp hr
    exact Nat.le_trans (Nat.sub_le ..) (hwithin s hs)

end Code

end ClassRefactor
