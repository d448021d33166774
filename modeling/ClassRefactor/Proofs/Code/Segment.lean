import ClassRefactor.Code.Segment
import ClassRefactor.Proofs.Layout.Declaration

/-!
# Segments lie side by side

The members of a body and the statements of a block are non-empty ranges in ascending order that do
not overlap. A segment begins at a cell that is no blank, and ends after its terminator or where the
code to cut ends.
-/

namespace ClassRefactor

/-- Non-empty ranges in ascending order, none overlapping another, all between two offsets. -/
structure Range.Laid (lo hi : Nat) (rs : List Range) : Prop where
  within : ∀ r ∈ rs, lo ≤ r.start ∧ r.start < r.stop ∧ r.stop ≤ hi
  ordered : rs.Pairwise fun a b => a.stop ≤ b.start

namespace Range.Laid

variable {lo hi : Nat} {rs : List Range}

theorem nil : Laid lo hi [] := ⟨by simp, .nil⟩

theorem cons {r : Range} (hlo : lo ≤ r.start) (hlt : r.start < r.stop) (hhi : r.stop ≤ hi)
    (h : Laid r.stop hi rs) : Laid lo hi (r :: rs) := by
  refine ⟨fun s hs => ?_, List.pairwise_cons.mpr ⟨fun s hs => (h.within s hs).1, h.ordered⟩⟩
  rcases List.mem_cons.mp hs with rfl | hs
  · exact ⟨hlo, hlt, hhi⟩
  · obtain ⟨h1, h2, h3⟩ := h.within s hs
    exact ⟨by omega, h2, h3⟩

/-- The ranges after the first one. -/
theorem tail {r : Range} (h : Laid lo hi (r :: rs)) : Laid r.stop hi rs := by
  obtain ⟨hfirst, hordered⟩ := List.pairwise_cons.mp h.ordered
  exact ⟨fun s hs => ⟨hfirst s hs, (h.within s (List.mem_cons_of_mem _ hs)).2⟩, hordered⟩

theorem mono {lo' : Nat} (h : Laid lo hi rs) (hle : lo' ≤ lo) : Laid lo' hi rs :=
  ⟨fun r hr => ⟨Nat.le_trans hle (h.within r hr).1, (h.within r hr).2⟩, h.ordered⟩

theorem filter (h : Laid lo hi rs) (p : Range → Bool) : Laid lo hi (rs.filter p) :=
  ⟨fun r hr => h.within r (List.mem_filter.mp hr).1, h.ordered.sublist List.filter_sublist⟩

/-- Ranges that shrink stay apart. -/
theorem map {f : Range → Range} (h : Laid lo hi rs)
    (hf : ∀ r ∈ rs, r.start ≤ (f r).start ∧ (f r).start < (f r).stop ∧ (f r).stop ≤ r.stop) :
    Laid lo hi (rs.map f) := by
  refine ⟨fun s hs => ?_, ?_⟩
  · obtain ⟨r, hr, rfl⟩ := List.mem_map.mp hs
    obtain ⟨h1, -, h3⟩ := h.within r hr
    obtain ⟨f1, f2, f3⟩ := hf r hr
    exact ⟨by omega, f2, by omega⟩
  · rw [List.pairwise_map]
    refine h.ordered.imp_of_mem fun {a b} ha hb hab => ?_
    have := (hf a ha).2.2
    have := (hf b hb).1
    omega

end Range.Laid

namespace Segment

variable {code : Code} {rule : AfterBlock.Rule}

/-- What ends a segment is a `;` or a brace. -/
theorem terminator_of_advance_eq_none {stop start pos : Nat} {s : State} {c : Char}
    (h : advance code rule stop start s pos c = none) : c = ';' ∨ c = '}' := by
  simp only [advance] at h
  split at h
  · cases h
  · split at h
    · cases h
    · split at h
      · cases h
      · split at h
        · rename_i hc
          exact .inr (by simpa using hc)
        · split at h
          · rename_i hc
            simp only [Bool.and_eq_true, beq_iff_eq] at hc
            exact .inl hc.1.1
          · cases h

/-- A segment that goes on keeps its start. -/
theorem start_of_advance_eq_some {stop start pos : Nat} {s next : State} {c : Char}
    (h : advance code rule stop start s pos c = some next) : next.start = some start := by
  simp only [advance] at h
  repeat' split at h
  all_goals first | (obtain rfl := Option.some.inj h; rfl) | cases h

/-- A segment in its place: it begins with a cell of code, and ends with its terminator or at the
end of the code that is cut. -/
structure Sound (code : Code) (stop : Nat) (r : Range) : Prop where
  seams : code.Seam r.start ∧ code.Seam r.stop
  begins : ∃ c, code[r.start]? = some c ∧ isLayoutBlank c = false
  ends : r.stop = stop ∨ code[r.stop - 1]? = some ';' ∨ code[r.stop - 1]? = some '}'

theorem rangesFrom_spec {lo stop pos : Nat} {s : State} {cells : Code} (hstop : code.Seam stop)
    (hpos : pos ≤ stop) (hcells : code.window pos stop = cells) (hlo : lo ≤ pos)
    (hnone : s.start = none → code.Loose pos)
    (hsome : ∀ start, s.start = some start → lo ≤ start ∧ start < pos ∧ code.Seam start ∧
      ∃ c, code[start]? = some c ∧ isLayoutBlank c = false) :
    Range.Laid lo stop (rangesFrom code rule stop s pos cells) ∧
      ∀ r ∈ rangesFrom code rule stop s pos cells, Sound code stop r := by
  induction cells generalizing lo pos s with
  | nil =>
    cases hs : s.start with
    | none => simpa [rangesFrom, hs] using Range.Laid.nil
    | some start =>
      obtain ⟨h1, h2, h3, h4⟩ := hsome start hs
      have hlt : start < stop := by omega
      simp only [rangesFrom, hs, Option.map_some, Option.toList_some, List.mem_singleton,
        forall_eq]
      exact ⟨.cons h1 hlt (Nat.le_refl _) .nil, ⟨h3, hstop⟩, h4, .inl rfl⟩
  | cons c rest ih =>
    obtain ⟨hlt, hc, hrest⟩ := Code.window_eq_cons hcells
    unfold rangesFrom
    split
    · rename_i hskip
      simp only [Bool.and_eq_true, Option.isNone_iff_eq_none] at hskip
      exact ih hlt hrest.symm (by omega) (fun _ => Code.loose_of_blank hc hskip.2)
        (by simp [hskip.1])
    · rename_i hskip
      have hstart : lo ≤ s.start.getD pos ∧ s.start.getD pos < pos + 1 ∧
          code.Seam (s.start.getD pos) ∧
          ∃ d, code[s.start.getD pos]? = some d ∧ isLayoutBlank d = false := by
        cases hs : s.start with
        | none =>
          have hblank : isLayoutBlank c = false := by simpa [hs] using hskip
          exact ⟨hlo, by simp, (hnone hs).seam hc hblank, c, hc, hblank⟩
        | some start =>
          obtain ⟨h1, h2, h3⟩ := hsome start hs
          exact ⟨h1, by simp only [Option.getD_some]; omega, h3⟩
      generalize s.start.getD pos = start at *
      obtain ⟨h1, h2, h3, h4⟩ := hstart
      simp only
      split
      · rename_i hend
        have hsolid : isSolid c = true := by
          rcases terminator_of_advance_eq_none hend with rfl | rfl <;> decide
        have hseam := (Code.seam_of_solid hc hsolid).2
        obtain ⟨hlaid, hall⟩ := ih (s := {}) hlt hrest.symm (Nat.le_refl (pos + 1))
          (fun _ => hseam.loose) (by simp)
        refine ⟨.cons h1 h2 hlt hlaid, fun r hr => ?_⟩
        rcases List.mem_cons.mp hr with rfl | hr
        · refine ⟨⟨h3, hseam⟩, h4, .inr ?_⟩
          simp only [Nat.add_sub_cancel, hc]
          rcases terminator_of_advance_eq_none hend with rfl | rfl <;> simp
        · exact hall r hr
      · rename_i next hnext
        have hkeep := start_of_advance_eq_some hnext
        refine ih hlt hrest.symm (by omega) (by simp [hkeep]) fun st hst => ?_
        rw [hkeep] at hst
        obtain rfl := Option.some.inj hst
        exact ⟨h1, h2, h3, h4⟩

theorem ranges_spec (rule : AfterBlock.Rule) {start stop : Nat} (hle : start ≤ stop)
    (hstart : code.Seam start) (hstop : code.Seam stop) :
    Range.Laid start stop (ranges code rule start stop) ∧
      ∀ r ∈ ranges code rule start stop, Sound code stop r :=
  rangesFrom_spec hstop hle rfl (Nat.le_refl _) (fun _ => hstart.loose) (by simp)

end Segment

namespace Code

variable {code : Code}

theorem memberRanges_spec {start stop : Nat} (hle : start ≤ stop) (hstart : code.Seam start)
    (hstop : code.Seam stop) :
    Range.Laid start stop (code.memberRanges start stop) ∧
      ∀ r ∈ code.memberRanges start stop, Segment.Sound code stop r := by
  obtain ⟨hlaid, hall⟩ := Segment.ranges_spec code.afterMemberBlock hle hstart hstop
  exact ⟨hlaid.filter _, fun r hr => hall r (List.mem_filter.mp hr).1⟩

theorem statementRanges_spec {start stop : Nat} (hle : start ≤ stop) (hstart : code.Seam start)
    (hstop : code.Seam stop) :
    Range.Laid start stop (code.statementRanges start stop) ∧
      ∀ r ∈ code.statementRanges start stop, code.Fits r := by
  obtain ⟨hlaid, hall⟩ := Segment.ranges_spec code.afterStatementBlock hle hstart hstop
  -- The first cell of a segment is no blank, so trimming leaves it.
  have htrim : ∀ r ∈ Segment.ranges code code.afterStatementBlock start stop,
      r.start < code.trimBlanks r.start r.stop ∧ code.trimBlanks r.start r.stop ≤ r.stop ∧
        Seam code (code.trimBlanks r.start r.stop) := by
    intro r hr
    obtain ⟨-, hlt, -⟩ := hlaid.within r hr
    obtain ⟨⟨hs1, hs2⟩, ⟨c, hc, hblank⟩, -⟩ := hall r hr
    obtain ⟨h1, h2, h3⟩ := trimBlanks_spec (Nat.le_of_lt hlt) hs1 hs2
    obtain ⟨-, hin, -⟩ := runBack_spec isLayoutBlank (Nat.le_of_lt hlt) hs2.le
    refine ⟨Nat.lt_of_le_of_ne h1 fun heq => ?_, h2, h3⟩
    obtain ⟨d, hd, hdb⟩ := hin r.start (Nat.le_of_eq heq.symm) hlt
    rw [hc] at hd
    obtain rfl := Option.some.inj hd
    rw [hblank] at hdb
    cases hdb
  refine ⟨hlaid.map fun r hr => ⟨Nat.le_refl _, (htrim r hr).1, (htrim r hr).2.1⟩, fun s hs => ?_⟩
  obtain ⟨r, hr, rfl⟩ := List.mem_map.mp hs
  exact ⟨Nat.le_of_lt (htrim r hr).1, (hall r hr).seams.1, (htrim r hr).2.2⟩

end Code

end ClassRefactor
