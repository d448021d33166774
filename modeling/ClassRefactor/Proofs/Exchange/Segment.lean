import ClassRefactor.Proofs.Code.Ended
import ClassRefactor.Proofs.Exchange.Lead

/-!
# Segments around an exchanged lead

When the lead of a member is exchanged, a class body falls into the same segments. Those before the
lead stay, those behind it move, and the one around it grows or shrinks by the difference.
-/

namespace ClassRefactor

/-- Corresponding ranges before the exchanged part, around it or behind it. -/
inductive Range.Moved (a b b' : Code) : Range → Range → Prop
  | before {r : Range} (h : r.stop ≤ a.length) : Moved a b b' r r
  | around {start n : Nat} (h : start ≤ a.length) (hb : start < (a ++ b).length)
    (hb' : start < (a ++ b').length) (hn : 0 < n) :
    Moved a b b' ⟨start, (a ++ b).length + n⟩ ⟨start, (a ++ b').length + n⟩
  | behind (r : Range) : Moved a b b' (r.shift (a ++ b).length) (r.shift (a ++ b').length)

namespace Code

/-- Corresponding starts of segments. -/
def Begun (a b b' : Code) (p p' : Nat) : Prop :=
  (p ≤ a.length ∧ p < (a ++ b).length ∧ p < (a ++ b').length ∧ p' = p) ∨
    ∃ q, p = (a ++ b).length + q ∧ p' = (a ++ b').length + q

theorem Unassigned.left {l r : Code} (h : Unassigned (l ++ r)) : Unassigned l := by
  intro d hd
  refine h d ?_
  rw [List.dropWhile_append]
  split
  · rename_i hempty
    rw [List.isEmpty_iff.mp hempty] at hd
    cases hd
  · rw [List.head?_append, hd]
    rfl

theorem Unassigned.head_ne {l : Code} (h : Unassigned l) : l.head? ≠ some '=' := by
  intro heq
  obtain ⟨rest, rfl⟩ := List.head?_eq_some_iff.mp heq
  exact h '=' (by rw [List.dropWhile_cons_of_neg (by decide)]; rfl) rfl

theorem Unassigned.window {l c : Code} (h : Unassigned (l ++ c)) (stop : Nat) :
    Unassigned (l ++ c.window 0 stop) := by
  rw [window_zero]
  rw [← List.take_append_drop stop c, ← List.append_assoc] at h
  exact h.left

/-- Parts that may stand for one another before `c`: they close what they open, and no `=` comes
first in them or behind them. -/
structure Alike (b b' c : Code) : Prop where
  old : stackAfter [] b = some []
  new : stackAfter [] b' = some []
  unassigned : Unassigned c
  unassigned_old : Unassigned (b ++ c)
  unassigned_new : Unassigned (b' ++ c)

theorem Lead.unassigned {l : Code} (h : Lead l) (r : Code) : Unassigned (l ++ r) := by
  obtain ⟨d, hd, hsolid, hne, -⟩ := h.head
  obtain ⟨rest, rfl⟩ := List.head?_eq_some_iff.mp hd
  intro e he
  rw [List.cons_append, List.dropWhile_cons_of_neg (by simp [hsolid])] at he
  rw [← Option.some.inj he]
  exact hne

theorem unassigned_name {c : Code} (hc : ∃ d, c.head? = some d ∧ isNameCell d = true) :
    Unassigned c := by
  obtain ⟨d, hd, hname⟩ := hc
  obtain ⟨rest, rfl⟩ := List.head?_eq_some_iff.mp hd
  intro e he
  rw [List.dropWhile_cons_of_neg (by simp [isLayoutBlank_of_isNameCell hname])] at he
  rw [← Option.some.inj he]
  rintro rfl
  exact absurd hname (by decide)

/-- Leads before a name may stand for one another. -/
theorem Lead.alike {b b' c : Code} (hb : Lead b) (hb' : Lead b')
    (hc : ∃ d, c.head? = some d ∧ isNameCell d = true) : Alike b b' c :=
  ⟨hb.closed, hb'.closed, unassigned_name hc, hb.unassigned c, hb'.unassigned c⟩

/-! Assignments. -/

/-- An assignment is found within some code, or the search goes on behind it, if no `=` comes
next. -/
theorem assignFrom_append_cases (l : Code) (previous : Char) (depth : Nat) :
    (∀ beyond (r : Code), r.head?.or beyond ≠ some '=' →
        (assignFrom beyond previous depth (l ++ r)).isSome = true) ∨
      ∃ previous' depth', ∀ beyond (r : Code), r.head?.or beyond ≠ some '=' →
        (assignFrom beyond previous depth (l ++ r)).isSome =
          (assignFrom beyond previous' depth' r).isSome := by
  induction l generalizing previous depth with
  | nil => exact .inr ⟨previous, depth, fun _ _ _ => rfl⟩
  | cons c l ih =>
    -- Whether the first cell assigns depends on the next one only if that is a `=`.
    have hnext : ∃ next, ∀ beyond (r : Code), r.head?.or beyond ≠ some '=' →
        isComparison previous (((l ++ r).head?.or beyond).getD ' ') =
          isComparison previous next := by
      cases l with
      | nil =>
        refine ⟨' ', fun beyond r hr => ?_⟩
        rw [List.nil_append]
        cases hnext : r.head?.or beyond with
        | none => rfl
        | some d =>
          have hd : (d == '=') = false := beq_eq_false_iff_ne.mpr (by rintro rfl; exact hr hnext)
          simp [isComparison, hd]
      | cons e l => exact ⟨e, fun beyond r _ => rfl⟩
    obtain ⟨next, hnext⟩ := hnext
    by_cases hassign : (c == '=' && depth == 0 && !isComparison previous next) = true
    · refine .inl fun beyond r hr => ?_
      rw [List.cons_append, assignFrom, hnext beyond r hr, if_pos hassign]
      rfl
    · have hstep : ∀ beyond (r : Code), r.head?.or beyond ≠ some '=' →
          (assignFrom beyond previous depth (c :: l ++ r)).isSome =
            (assignFrom beyond c (bracketDepth depth c) (l ++ r)).isSome := by
        intro beyond r hr
        rw [List.cons_append, assignFrom, hnext beyond r hr, if_neg hassign, Option.isSome_map]
      rcases ih c (bracketDepth depth c) with hfound | ⟨previous', depth', hgoes⟩
      · exact .inl fun beyond r hr => (hstep beyond r hr).trans (hfound beyond r hr)
      · exact .inr ⟨previous', depth', fun beyond r hr =>
          (hstep beyond r hr).trans (hgoes beyond r hr)⟩

/-- Where no `=` comes first, it does not matter which cell precedes. -/
theorem isSome_assignFrom_of_head {cells : Code} (h : cells.head? ≠ some '=')
    (beyond : Option Char) (previous previous' : Char) (depth : Nat) :
    (assignFrom beyond previous depth cells).isSome =
      (assignFrom beyond previous' depth cells).isSome := by
  cases cells with
  | nil => rfl
  | cons d rest =>
    have hd : (d == '=') = false := by
      rw [beq_eq_false_iff_ne]
      rintro rfl
      exact h rfl
    simp [assignFrom, hd]

section

variable {a b b' c : Code} (h : Alike b b' c)
include h

/-- A segment holds an assignment before a place behind the exchanged part whichever part it
holds. -/
theorem Alike.assignment? {p p' q : Nat} (hp : Begun a b b' p p') (hq : q < c.length) :
    ((a ++ b ++ c).assignment? p ((a ++ b).length + q)).isSome =
      ((a ++ b' ++ c).assignment? p' ((a ++ b').length + q)).isSome := by
  rcases hp with ⟨hle, -, -, rfl⟩ | ⟨s, rfl, rfl⟩
  · have hwindow : ∀ l : Code, (a ++ l ++ c).window p' ((a ++ l).length + q) =
        a.drop p' ++ (l ++ c.window 0 q) := by
      intro l
      rw [window_append_right (by rw [List.length_append]; omega),
        List.drop_append_of_le_length hle, List.append_assoc]
    have hget : ∀ l : Code, (a ++ l ++ c)[(a ++ l).length + q]? = (c)[q]? := by
      intro l
      rw [List.getElem?_append_right (Nat.le_add_right ..), Nat.add_sub_cancel_left]
    have hpass : ∀ {l : Code}, stackAfter [] l = some [] → ∀ (previous : Char) (depth : Nat)
        (rest : Code), (assignFrom (c)[q]? previous depth (l ++ rest)).isSome =
          (assignFrom (c)[q]? (l.getLast?.getD previous) depth rest).isSome := by
      intro l hl previous depth rest
      have := assignFrom_nested hl (c)[q]? previous depth rest
      rw [show openBrackets [] = 0 from rfl, Nat.add_zero] at this
      rw [this, Option.isSome_map]
    -- The cell behind the front of a segment is that of the exchanged part, or of what follows it.
    have hbeyond : ∀ {l : Code}, Unassigned (l ++ c) →
        (l ++ c.window 0 q).head?.or (c)[q]? ≠ some '=' := by
      intro l hl
      have hhead := hl.head_ne
      cases l with
      | cons d l => exact hhead
      | nil =>
        rw [List.nil_append] at hhead ⊢
        rw [window_zero, List.head?_take]
        split
        · rename_i hzero
          rwa [hzero, Option.none_or, ← List.head?_eq_getElem?]
        · cases hc : c.head? with
          | none => rw [List.head?_eq_none_iff.mp hc]; simp
          | some d => rw [← hc]; simpa [hc] using hhead
    have hhead : (c.window 0 q).head? ≠ some '=' := by
      have := h.unassigned
      rw [← List.nil_append c] at this
      exact (this.window q).head_ne
    simp only [Code.assignment?, hwindow, hget, Option.isSome_map]
    rcases assignFrom_append_cases (a.drop p') ' ' 0 with hfound | ⟨previous, depth, hgoes⟩
    · rw [hfound _ _ (hbeyond h.unassigned_old), hfound _ _ (hbeyond h.unassigned_new)]
    · rw [hgoes _ _ (hbeyond h.unassigned_old), hgoes _ _ (hbeyond h.unassigned_new),
        hpass h.old, hpass h.new]
      exact isSome_assignFrom_of_head hhead ..
  · have hassign : ∀ l : Code,
        ((a ++ l ++ c).assignment? ((a ++ l).length + s) ((a ++ l).length + q)).isSome =
          (c.assignment? s q).isSome := by
      intro l
      rw [(shows_right (a ++ l) c).assignment?_of_lt hq, Option.isSome_map]
    rw [hassign, hassign]

end

/-- The code behind the lead is judged without regard to what precedes it. -/
theorem afterMemberBlock_behind (u : Code) {y : Code} {stop : Nat} (hstop : stop ≤ y.length)
    (start start' after : Nat) :
    (u ++ y).afterMemberBlock start (u.length + after) (u.length + stop) =
      y.afterMemberBlock start' after stop := by
  have hget : ∀ i, (u ++ y)[u.length + i]? = y[i]? := fun i => by
    rw [List.getElem?_append_right (Nat.le_add_right ..), Nat.add_sub_cancel_left]
  simp only [afterMemberBlock, (shows_right u y).skipBlanks hstop, Nat.add_lt_add_iff_left,
    Nat.add_assoc, hget]

/-- A block is judged by the code that it stands in, unless a `=` comes behind that code. -/
theorem afterMemberBlock_append {a r : Code} {after stop : Nat} (hr : Unassigned r)
    (hafter : after ≤ a.length) (hle : a.length ≤ stop) (start : Nat) :
    (a ++ r).afterMemberBlock start after stop = a.afterMemberBlock start after a.length := by
  have hwindow : (a ++ r).window after stop = a.drop after ++ r.take (stop - a.length) := by
    rw [window, List.drop_append_of_le_length hafter, List.take_append,
      List.take_of_length_le (by rw [List.length_drop]; omega), List.length_drop,
      show stop - after - (a.length - after) = stop - a.length by omega]
  by_cases hblank : ∀ d ∈ a.drop after, isLayoutBlank d = true
  · have hends : a.afterMemberBlock start after a.length = .ends :=
      afterMemberBlock_ends (by rw [window_length]; exact unassigned_blanks hblank) start
    rw [hends]
    refine afterMemberBlock_ends ?_ start
    rw [hwindow, Unassigned, List.dropWhile_append_of_pos hblank]
    rw [← List.take_append_drop (stop - a.length) r] at hr
    exact hr.left
  · -- The next cell that is no blank is one of this code.
    obtain ⟨d, hd, hsolid⟩ : ∃ d ∈ a.drop after, isLayoutBlank d = false := by
      simpa using hblank
    obtain ⟨i, hi⟩ := List.mem_iff_getElem?.mp hd
    have hlt : i < (a.drop after).length := (List.getElem?_eq_some_iff.mp hi).1
    rw [List.length_drop] at hlt
    have hrun := leading_append_of_false hi hsolid
    have hnext : after + leading isLayoutBlank (a.drop after) < a.length := by
      have := (hrun []).1
      omega
    simp only [afterMemberBlock, Code.skipBlanks, hwindow, window_length, (hrun _).2]
    generalize after + leading isLayoutBlank (a.drop after) = next at *
    have hsecond : ((a ++ r)[next + 1]? != some '=') = (a[next + 1]? != some '=') := by
      rcases Nat.lt_or_ge (next + 1) a.length with hin | hout
      · rw [List.getElem?_append_left hin]
      · rw [List.getElem?_append_right hout, List.getElem?_eq_none hout,
          show next + 1 - a.length = 0 by omega, ← List.head?_eq_getElem?,
          bne_iff_ne.mpr hr.head_ne]
        rfl
    rw [List.getElem?_append_left hnext, hsecond]
    simp only [hnext, Nat.lt_of_lt_of_le hnext hle]

/-- The cut of the members from `start` on as far as some code goes: those that end in it, and the
state behind it. -/
def memberCut (a : Code) (start : Nat) : List Range × Segment.State :=
  Segment.endedFrom a a.afterMemberBlock a.length {} start (a.drop start)

section

variable {a r : Code} {start stop : Nat} (hr : Unassigned r) (hstart : start ≤ a.length)
  (hle : a.length ≤ stop)
include hr hstart hle

theorem endedFrom_memberCut :
    Segment.endedFrom (a ++ r) (a ++ r).afterMemberBlock stop {} start (a.drop start) =
      a.memberCut start :=
  Segment.endedFrom_left hstart fun s _ _ _ hafter _ => afterMemberBlock_append hr hafter hle s

theorem ranges_memberCut :
    Segment.ranges (a ++ r) (a ++ r).afterMemberBlock start stop =
      (a.memberCut start).1 ++
        Segment.rangesFrom (a ++ r) (a ++ r).afterMemberBlock stop (a.memberCut start).2 a.length
          (r.take (stop - a.length)) :=
  Segment.ranges_append hstart (fun s _ _ _ hafter _ => afterMemberBlock_append hr hafter hle s) hle

end

/-- Members that end in some code lie in it. -/
theorem within_memberCut {a : Code} {start : Nat} (hstart : start ≤ a.length) :
    ∀ r ∈ (a.memberCut start).1, r.start < r.stop ∧ r.stop ≤ a.length ∧
      (a[r.stop - 1]? = some ';' ∨ a[r.stop - 1]? = some '}') := by
  intro r hr
  obtain ⟨hlt, -, hle, hend⟩ :=
    Segment.ends_of_mem_endedFrom (by simp) ⟨[], by rw [List.append_nil]⟩ r hr
  rw [List.length_drop] at hle
  exact ⟨hlt, by omega, hend⟩

/-- A member that is open at the end of some code began in it. -/
theorem start_memberCut {a : Code} {start p : Nat} (hp : (a.memberCut start).2.start = some p) :
    p < a.length := by
  obtain ⟨hle, hlt⟩ := Segment.begun_of_endedFrom (Nat.le_refl start) (by simp) hp
  rw [List.length_drop] at hlt
  omega

end Code

namespace Segment

section

variable {a b b' c : Code}

theorem moved_of_begun {p p' m : Nat} (h : Code.Begun a b b' p p') (hm : 0 < m) :
    Range.Moved a b b' ⟨p, (a ++ b).length + m⟩ ⟨p', (a ++ b').length + m⟩ := by
  rcases h with ⟨hle, hb, hb', rfl⟩ | ⟨q, rfl, rfl⟩
  · exact .around hle hb hb' hm
  · exact .behind ⟨q, m⟩

theorem begun_getD {o o' : Option Nat} (h : Option.Rel (Code.Begun a b b') o o') (q : Nat) :
    o'.isNone = o.isNone ∧ Code.Begun a b b' (o.getD ((a ++ b).length + q))
      (o'.getD ((a ++ b').length + q)) := by
  cases h with
  | none => exact ⟨rfl, .inr ⟨q, rfl, rfl⟩⟩
  | some h => exact ⟨rfl, h⟩

variable (h : Code.Alike b b' c) {stop : Nat} (hpos : 0 < stop) (hstop : stop ≤ c.length)
include h hpos hstop

/-- Behind the exchanged part, two cuts whose segments began at corresponding places go on alike. -/
theorem rangesFrom_behind {st : State} {first : Option Nat} {q : Nat} {cells : Code}
    (hcells : c.window q stop = cells) (hst : Option.Rel (Code.Begun a b b') st.start first) :
    List.Forall₂ (Range.Moved a b b')
      (rangesFrom (a ++ b ++ c) (a ++ b ++ c).afterMemberBlock ((a ++ b).length + stop) st
        ((a ++ b).length + q) cells)
      (rangesFrom (a ++ b' ++ c) (a ++ b' ++ c).afterMemberBlock ((a ++ b').length + stop)
        { st with start := first } ((a ++ b').length + q) cells) := by
  induction cells generalizing st first q with
  | nil =>
    cases hs : st.start with
    | none =>
      rw [hs] at hst
      cases hst
      simp [rangesFrom, hs]
    | some p =>
      rw [hs] at hst
      cases hst with
      | some hp => simpa [rangesFrom, hs] using moved_of_begun hp hpos
  | cons d rest ih =>
    obtain ⟨hlt, hd, hrest⟩ := Code.window_eq_cons hcells
    obtain ⟨hnone, hbegun⟩ := begun_getD hst q
    rw [rangesFrom, rangesFrom]
    simp only [hnone]
    split
    · exact ih hrest.symm hst
    · generalize st.start.getD ((a ++ b).length + q) = start at *
      generalize first.getD ((a ++ b').length + q) = start' at *
      have hstep : advance (a ++ b' ++ c) (a ++ b' ++ c).afterMemberBlock
          ((a ++ b').length + stop) start' { st with start := first } ((a ++ b').length + q) d =
          (advance (a ++ b ++ c) (a ++ b ++ c).afterMemberBlock ((a ++ b).length + stop) start st
            ((a ++ b).length + q) d).map fun next => { next with start := some start' } :=
        advance_congr
          (fun _ => h.assignment? hbegun (by omega))
          (fun _ => (Code.afterMemberBlock_behind (a ++ b) hstop start 0 (q + 1)).trans
            (Code.afterMemberBlock_behind (a ++ b') hstop start' 0 (q + 1)).symm) first
      rw [hstep]
      cases hnext : advance (a ++ b ++ c) (a ++ b ++ c).afterMemberBlock ((a ++ b).length + stop)
          start st ((a ++ b).length + q) d with
      | none => exact .cons (moved_of_begun hbegun q.succ_pos) (ih hrest.symm .none)
      | some next =>
        refine ih hrest.symm ?_
        rw [start_of_advance_eq_some hnext]
        exact .some hbegun

/-- The exchanged part is passed over within a segment. -/
theorem rangesFrom_alike {st : State} {p : Nat} (hst : st.start = some p) (hp : p ≤ a.length)
    (hb : p < (a ++ b).length) (hb' : p < (a ++ b').length) :
    List.Forall₂ (Range.Moved a b b')
      (rangesFrom (a ++ b ++ c) (a ++ b ++ c).afterMemberBlock ((a ++ b).length + stop) st a.length
        (b ++ c.window 0 stop))
      (rangesFrom (a ++ b' ++ c) (a ++ b' ++ c).afterMemberBlock ((a ++ b').length + stop) st
        a.length (b' ++ c.window 0 stop)) := by
  have hpass : ∀ {l : Code}, Code.stackAfter [] l = some [] →
      rangesFrom (a ++ l ++ c) (a ++ l ++ c).afterMemberBlock ((a ++ l).length + stop) st
        a.length (l ++ c.window 0 stop) =
      rangesFrom (a ++ l ++ c) (a ++ l ++ c).afterMemberBlock ((a ++ l).length + stop) st
        ((a ++ l).length + 0) (c.window 0 stop) := by
    intro l hl
    rw [rangesFrom_nested hl hst rfl (c.window 0 stop), List.length_append]
    rfl
  rw [hpass h.old, hpass h.new]
  have hsame : { st with start := some p } = st := by rw [← hst]
  have hbegun : Option.Rel (Code.Begun a b b') st.start (some p) := by
    rw [hst]
    exact .some (.inl ⟨hp, hb, hb', rfl⟩)
  have hbehind := rangesFrom_behind h hpos hstop (q := 0) rfl hbegun
  rwa [hsame] at hbehind

end

end Segment

namespace Code

/-- A class body is cut as the code before some part is, and then within and behind that part. -/
theorem ranges_between {a l c : Code} {start : Nat} (h : Unassigned (l ++ c))
    (hstart : start ≤ a.length) (stop : Nat) :
    Segment.ranges (a ++ l ++ c) (a ++ l ++ c).afterMemberBlock start ((a ++ l).length + stop) =
      (a.memberCut start).1 ++ Segment.rangesFrom (a ++ l ++ c) (a ++ l ++ c).afterMemberBlock
        ((a ++ l).length + stop) (a.memberCut start).2 a.length (l ++ c.window 0 stop) := by
  have htake : (l ++ c).take ((a ++ l).length + stop - a.length) = l ++ c.window 0 stop := by
    rw [List.length_append, Nat.add_assoc, Nat.add_sub_cancel_left, List.take_length_add_append,
      window_zero]
  have := ranges_memberCut h hstart (show a.length ≤ (a ++ l).length + stop by
    rw [List.length_append]; omega)
  rwa [htake, ← List.append_assoc] at this

section

variable {a b b' c : Code} {start start' stop : Nat}

/-- Corresponding segments are members alike. -/
theorem memberRanges_moved_of_ranges
    (h : List.Forall₂ (Range.Moved a b b')
      (Segment.ranges (a ++ b ++ c) (a ++ b ++ c).afterMemberBlock start ((a ++ b).length + stop))
      (Segment.ranges (a ++ b' ++ c) (a ++ b' ++ c).afterMemberBlock start'
        ((a ++ b').length + stop))) :
    List.Forall₂ (Range.Moved a b b') ((a ++ b ++ c).memberRanges start ((a ++ b).length + stop))
      ((a ++ b' ++ c).memberRanges start' ((a ++ b').length + stop)) := by
  refine List.rel_filter (fun r r' hr => ?_) h
  simp only
  cases hr with
  | before h =>
    by_cases hone : r.length = 1
    · have hlt : r.start < a.length := by
        rw [Range.length] at hone
        omega
      have hget : ∀ l : Code, (a ++ l ++ c)[r.start]? = a[r.start]? := fun l => by
        rw [List.append_assoc, List.getElem?_append_left hlt]
      rw [hget, hget]
    · simp [hone]
  | @around p m hp hb hb' hm =>
    have hlong : ∀ {l : Code}, p < (a ++ l).length →
        ((⟨p, (a ++ l).length + m⟩ : Range).length == 1) = false := fun hl => by
      rw [beq_eq_false_iff_ne, Range.length]
      simp only
      omega
    rw [hlong hb, hlong hb']
    rfl
  | behind r =>
    have hlength : ∀ m : Nat, (r.shift m).length = r.length := fun m => by
      simp only [Range.length, Range.shift]
      omega
    have hget : ∀ l : Code, (a ++ l ++ c)[(r.shift (a ++ l).length).start]? = (c)[r.start]? :=
      fun l => by
        rw [Range.shift, List.getElem?_append_right (Nat.le_add_right ..),
          Nat.add_sub_cancel_left]
    rw [hlength, hlength, hget, hget]

/-- The members that end before some part stay. -/
theorem moved_memberCut (hstart : start ≤ a.length) :
    List.Forall₂ (Range.Moved a b b') (a.memberCut start).1 (a.memberCut start).1 :=
  List.forall₂_same.mpr fun r hr => .before (within_memberCut hstart r hr).2.1

/-- The members of a class body around an exchanged part correspond one by one, if a member is open
there, or both parts begin one. -/
theorem memberRanges_moved (h : Alike b b' c)
    (hopen : (a.memberCut start).2.start.isSome = true ∨
      ∀ l : Code, l = b ∨ l = b' → ∃ d, l.head? = some d ∧ isLayoutBlank d = false)
    (hpos : 0 < stop) (hstop : stop ≤ c.length) (hstart : start ≤ a.length) :
    List.Forall₂ (Range.Moved a b b') ((a ++ b ++ c).memberRanges start ((a ++ b).length + stop))
      ((a ++ b' ++ c).memberRanges start ((a ++ b').length + stop)) := by
  refine memberRanges_moved_of_ranges ?_
  rw [ranges_between h.unassigned_old hstart, ranges_between h.unassigned_new hstart]
  refine List.rel_append (moved_memberCut hstart) ?_
  have hbegun := @start_memberCut a start
  have hclear := @Segment.endedFrom_clear a a.afterMemberBlock a.length {} (fun _ => rfl) start
    (a.drop start)
  rw [← memberCut] at hclear
  generalize (a.memberCut start).2 = st at *
  cases hst : st.start with
  | some p =>
    have hp := hbegun hst
    exact Segment.rangesFrom_alike h hpos hstop hst (Nat.le_of_lt hp)
      (by rw [List.length_append]; omega) (by rw [List.length_append]; omega)
  | none =>
    -- The part begins a member.
    have hheads := hopen.resolve_left (by simp [hst])
    rw [hclear hst]
    have hbegin : ∀ l : Code, l = b ∨ l = b' → 0 < l.length ∧
        Segment.rangesFrom (a ++ l ++ c) (a ++ l ++ c).afterMemberBlock ((a ++ l).length + stop) {}
          a.length (l ++ c.window 0 stop) =
        Segment.rangesFrom (a ++ l ++ c) (a ++ l ++ c).afterMemberBlock ((a ++ l).length + stop)
          { start := some a.length } a.length (l ++ c.window 0 stop) := by
      intro l hl
      obtain ⟨d, hd, hsolid⟩ := hheads l hl
      obtain ⟨rest, rfl⟩ := List.head?_eq_some_iff.mp hd
      exact ⟨Nat.succ_pos _, Segment.rangesFrom_begin hsolid _ _⟩
    obtain ⟨hlen, hbegin₁⟩ := hbegin b (.inl rfl)
    obtain ⟨hlen', hbegin₂⟩ := hbegin b' (.inr rfl)
    rw [hbegin₁, hbegin₂]
    exact Segment.rangesFrom_alike h hpos hstop rfl (Nat.le_refl _)
      (by rw [List.length_append]; omega) (by rw [List.length_append]; omega)

end

/-! Where members and their leads begin. -/

/-- A member or its lead may begin at this position. -/
def MayBegin (code : Code) (pos : Nat) : Prop := ∃ n, EndsAt (code.take pos) n

theorem MayBegin.blank {code : Code} {pos : Nat} {d : Char} (h : code.MayBegin pos)
    (hd : code[pos]? = some d) (hblank : isLayoutBlank d = true) : code.MayBegin (pos + 1) := by
  obtain ⟨n, h⟩ := h
  have hlt := h.lt
  have hpos := (List.getElem?_eq_some_iff.mp hd).1
  have hsplit : code.take (pos + 1) = code.take pos ++ [d] := by
    rw [List.take_add_one, hd]
    rfl
  rw [MayBegin, hsplit]
  refine ⟨n, ?_, fun e he => ?_⟩
  · obtain ⟨c, hc, hend⟩ := h.ended
    exact ⟨c, by rw [List.getElem?_append_left hlt, hc], hend⟩
  · rw [List.drop_append_of_le_length hlt] at he
    rcases List.mem_append.mp he with he | he
    · exact h.blanks e he
    · rw [List.mem_singleton.mp he]
      exact hblank

theorem mayBegin_succ {code : Code} {pos : Nat} {c : Char} (hc : code[pos]? = some c)
    (hend : isEnd c = true) : code.MayBegin (pos + 1) := by
  refine ⟨pos, ⟨c, by rw [List.getElem?_take_of_lt (Nat.lt_succ_self _), hc], hend⟩, fun d hd => ?_⟩
  rw [List.drop_of_length_le (by rw [List.length_take]; omega)] at hd
  cases hd

/-- What precedes a segment, up to blanks, is the end of another or of what precedes them all. -/
theorem mayBegin_of_mem_rangesFrom {code : Code} {rule : AfterBlock.Rule} {stop pos : Nat}
    {s : Segment.State} {cells : Code} (hcells : code.window pos stop = cells)
    (hnone : s.start = none → code.MayBegin pos)
    (hsome : ∀ p, s.start = some p → code.MayBegin p) :
    ∀ r ∈ Segment.rangesFrom code rule stop s pos cells, code.MayBegin r.start := by
  induction cells generalizing s pos with
  | nil =>
    intro r hr
    rw [Segment.rangesFrom, Option.mem_toList] at hr
    obtain ⟨p, hp, rfl⟩ := Option.map_eq_some_iff.mp hr
    exact hsome p hp
  | cons c rest ih =>
    obtain ⟨-, hc, hrest⟩ := window_eq_cons hcells
    have hbegun : code.MayBegin (s.start.getD pos) := by
      cases hs : s.start with
      | none => exact hnone hs
      | some p => exact hsome p hs
    rw [Segment.rangesFrom]
    simp only
    split
    · rename_i hskip
      rw [Bool.and_eq_true, Option.isNone_iff_eq_none] at hskip
      exact ih hrest.symm (fun _ => (hnone hskip.1).blank hc hskip.2) hsome
    · cases hnext : Segment.advance code rule stop (s.start.getD pos) s pos c with
      | none =>
        intro r hr
        rcases List.mem_cons.mp hr with rfl | hr
        · exact hbegun
        · refine ih hrest.symm (fun _ => mayBegin_succ hc ?_) (by simp) r hr
          rcases Segment.terminator_of_advance_eq_none hnext with rfl | rfl <;> rfl
      | some next =>
        have hkeep := Segment.start_of_advance_eq_some hnext
        refine ih hrest.symm (by simp [hkeep]) fun p hp => ?_
        rw [hkeep] at hp
        exact Option.some.inj hp ▸ hbegun

/-- What precedes a declaration is the end of its attributes or of what precedes the member, unless
it is taken to begin with a bracket that does not close. -/
theorem mayBegin_attributesFrom {code : Code} {depth opened pos stop : Nat} {cells : Code}
    (hcells : code.window pos stop = cells)
    (hzero : depth = 0 → code.MayBegin pos)
    (hopen : depth ≠ 0 → code[opened]? = some '[') :
    code[attributesFrom depth opened pos cells]? = some '[' ∨
      code.MayBegin (attributesFrom depth opened pos cells) := by
  induction cells generalizing depth opened pos with
  | nil =>
    rw [attributesFrom]
    split
    · rename_i hdepth
      exact .inr (hzero (beq_iff_eq.mp hdepth))
    · rename_i hdepth
      exact .inl (hopen (by simpa using hdepth))
  | cons c rest ih =>
    obtain ⟨-, hc, hrest⟩ := window_eq_cons hcells
    cases depth with
    | zero =>
      have hbegin := hzero rfl
      simp only [attributesFrom]
      split
      · rename_i hbracket
        exact ih hrest.symm (by simp) fun _ => by rw [hc, beq_iff_eq.mp hbracket]
      · split
        · rename_i hblank
          exact ih hrest.symm (fun _ => hbegin.blank hc hblank) (by simp)
        · exact .inr hbegin
    | succ depth =>
      have hopened := hopen (Nat.succ_ne_zero depth)
      simp only [attributesFrom]
      split
      · exact ih hrest.symm (by simp) fun _ => hopened
      · split
        · rename_i hclose
          refine ih hrest.symm (fun _ => mayBegin_succ hc ?_) fun _ => hopened
          rw [beq_iff_eq.mp hclose]
          rfl
        · exact ih hrest.symm (by simp) fun _ => hopened

/-- The code before the declaration of a member ends with a cell after which one may begin. -/
theorem mayBegin_of_mem_memberRanges {code : Code} {opening stop : Nat} {r : Range}
    (hopen : code[opening]? = some '{') (h : r ∈ code.memberRanges (opening + 1) stop) :
    code[code.skipAttributes r.start r.stop]? = some '[' ∨
      code.MayBegin (code.skipAttributes r.start r.stop) := by
  have hbefore := mayBegin_of_mem_rangesFrom rfl (fun _ => mayBegin_succ hopen rfl)
    (by simp) r (List.mem_filter.mp h).1
  exact mayBegin_attributesFrom rfl (fun _ => hbefore) (by simp)

end Code

end ClassRefactor
