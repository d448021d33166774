import ClassRefactor.Proofs.Layout.Callable

/-!
# Members are well laid

The deciding cell of a member stands within it, and everything that is then read as a field, a
constructor or a method lies between the ends of the member.
-/

namespace ClassRefactor.Code

variable {code : Code}

theorem furtherVariable?_spec {piece : Range} {v : VariableLayout} (hpiece : code.Fits piece)
    (h : code.furtherVariable? piece = some v) : v.Readable code := by
  obtain ⟨hle, hstart, hstop⟩ := hpiece
  obtain ⟨ha1, -, ha3⟩ := assignment?_getD_spec hle hstop
  obtain ⟨-, -, hname⟩ := trimmed_spec ha1 hstart ha3
  simp only [furtherVariable?] at h
  split at h
  · cases h
  · obtain rfl := Option.some.inj h
    exact ⟨hname, fitsIfAny_assigned hstop⟩

/-- The type and the variables of a field. -/
theorem field?_spec {start stop : Nat} {f : FieldLayout} (hlt : start < stop)
    (hstart : Seam code start) (hstop : Seam code stop)
    (h : code.field? start stop = some f) : f.Readable code := by
  obtain ⟨hd1, -, hd3⟩ := withoutSemicolon_spec hlt hstop
  obtain ⟨-, hm2, hm3⟩ := modifiers_spec memberModifiers hd1 hstart hd3
  have htiles := tiles_commaRanges hm2 hd3.le
  have hfits : ∀ piece ∈ code.commaRanges (code.modifiers memberModifiers start
      (code.withoutSemicolon stop)).2 (code.withoutSemicolon stop), code.Fits piece :=
    fun piece hp => ⟨(htiles.mem hp).2.1, htiles.seam hm3 hd3 hp⟩
  simp only [field?] at h
  split at h
  · cases h
  · rename_i first others hpieces
    rw [hpieces] at hfits
    obtain ⟨hle, hs1, hs2⟩ := hfits first List.mem_cons_self
    obtain ⟨ha1, -, ha3⟩ := assignment?_getD_spec hle hs2
    simp only [Option.bind_eq_bind, Option.bind_eq_some_iff, Option.some.injEq] at h
    obtain ⟨⟨type, name⟩, htype, further, hfurther, rfl⟩ := h
    obtain ⟨ht, hn, -⟩ := typeAndName?_spec ha1 hs1 ha3 htype
    refine ⟨ht, fun v hv => ?_⟩
    rcases List.mem_cons.mp hv with rfl | hv
    · exact ⟨hn, fitsIfAny_assigned hs2⟩
    · obtain ⟨piece, hpiece, hread⟩ := exists_of_forall₂_right (mapM_eq_some_iff.mp hfurther) hv
      exact furtherVariable?_spec (hfits piece (List.mem_cons_of_mem _ hpiece)) hread

/-- The deciding cell stands between the ends of the search, and is of one of four kinds. -/
theorem deciderFrom_spec {start stop angles skip pos p : Nat} {cells : Code}
    (hcells : code.window pos stop = cells)
    (h : code.deciderFrom start stop angles skip pos cells = .at p) :
    pos ≤ p ∧ p < stop ∧ (code[p]? = some '(' ∨ code[p]? = some '{' ∨ code[p]? = some ';' ∨
      code[p]? = some '=') := by
  induction cells generalizing angles skip pos with
  | nil => cases h
  | cons c rest ih =>
    obtain ⟨hlt, hc, hrest⟩ := window_eq_cons hcells
    -- All branches but the deciding one go on with the cell after this one.
    have next : ∀ {angles skip : Nat},
        code.deciderFrom start stop angles skip (pos + 1) rest = .at p →
        pos ≤ p ∧ p < stop ∧ (code[p]? = some '(' ∨ code[p]? = some '{' ∨ code[p]? = some ';' ∨
          code[p]? = some '=') := by
      intro angles skip h
      obtain ⟨h1, h2⟩ := ih hrest.symm h
      exact ⟨by omega, h2⟩
    cases skip with
    | succ skip => exact next h
    | zero =>
      simp only [deciderFrom] at h
      split at h
      · exact next h
      · split at h
        · exact next h
        · split at h
          · split at h
            · cases h
            · exact next h
          · split at h
            · rename_i hdecides
              simp only [Bool.and_eq_true, Bool.or_eq_true, beq_iff_eq] at hdecides
              obtain rfl := Decider.at.inj h
              rw [hc]
              refine ⟨Nat.le_refl _, hlt, ?_⟩
              rcases hdecides.2 with ((rfl | rfl) | rfl) | rfl <;> simp
            · exact next h

/-- A member layout is that of the range it was asked for. -/
theorem memberLayout_range (code : Code) (className : Code) (r : Range) :
    (code.memberLayout className r).range = r := by
  unfold memberLayout
  simp only
  repeat' split
  all_goals rfl

/-- A member that is not opaque declares nothing. It was read as a constructor or method, from a
parenthesis on, or as a field. -/
theorem memberLayout_cases {className : Code} {r : Range}
    (h : (code.memberLayout className r).shape ≠ .other) :
    ∃ pos, code.deciderFrom (code.skipAttributes r.start r.stop) r.stop 0 0
        (code.skipAttributes r.start r.stop)
        (code.window (code.skipAttributes r.start r.stop) r.stop) = .at pos ∧
      (declarationKeywords.any fun k =>
        containsWord k.toList (code.window (code.skipAttributes r.start r.stop) pos)) = false ∧
      (code[pos]? = some '(' ∧
          code.callable? className (code.skipAttributes r.start r.stop) pos r.stop =
            some (code.memberLayout className r).shape ∨
        ∃ f, code.field? (code.skipAttributes r.start r.stop) r.stop = some f ∧
          (code.memberLayout className r).shape = .field f) := by
  simp only [memberLayout] at h ⊢
  generalize code.skipAttributes r.start r.stop = start at *
  split at h
  · exact absurd rfl h
  · rename_i pos hdecider
    refine ⟨pos, hdecider, ?_⟩
    split at h
    · exact absurd rfl h
    · rename_i hundeclared
      refine ⟨by simpa using hundeclared, ?_⟩
      split at h
      · rename_i hopen
        split at h
        · exact absurd rfl h
        · rename_i shape hshape
          exact .inl ⟨by simpa using hopen, by simp [*]⟩
      · split at h
        · exact absurd rfl h
        · split at h
          · exact absurd rfl h
          · rename_i f hf
            exact .inr ⟨f, hf, by simp [*]⟩

/-- A member with parameters and a body was read as a constructor or method. -/
theorem memberLayout_callable? {className : Code} {r : Range} {c : CallableLayout}
    (hc : (code.memberLayout className r).shape.callable? = some c) :
    ∃ pos, code.deciderFrom (code.skipAttributes r.start r.stop) r.stop 0 0
        (code.skipAttributes r.start r.stop)
        (code.window (code.skipAttributes r.start r.stop) r.stop) = .at pos ∧
      (declarationKeywords.any fun k =>
        containsWord k.toList (code.window (code.skipAttributes r.start r.stop) pos)) = false ∧
      code[pos]? = some '(' ∧
      code.callable? className (code.skipAttributes r.start r.stop) pos r.stop =
        some (code.memberLayout className r).shape := by
  have hshape : (code.memberLayout className r).shape ≠ .other := by
    intro h
    rw [h] at hc
    cases hc
  obtain ⟨pos, hdecider, hundeclared, ⟨hopen, hread⟩ | ⟨f, -, hfield⟩⟩ := memberLayout_cases hshape
  · exact ⟨pos, hdecider, hundeclared, hopen, hread⟩
  · rw [hfield] at hc
    cases hc

/-- Every member layout is well laid and can be read. -/
theorem memberLayout_spec {className : Code} {r : Range} {m : MemberLayout}
    (hlt : r.start < r.stop) (hstart : Seam code r.start) (hstop : Seam code r.stop)
    (huncut : Uncut code r.stop) (h : code.memberLayout className r = m) :
    m.range = r ∧ m.WellLaid code ∧ m.Readable code := by
  obtain ⟨hs1, hs2, hs3⟩ := skipAttributes_spec (Nat.le_of_lt hlt) hstart hstop
  simp only [memberLayout] at h
  generalize code.skipAttributes r.start r.stop = start at *
  -- What the branches have in common: a signature that stops at a seam within the member.
  have upTo : ∀ (signatureStop : Nat) (shape : MemberShape), start ≤ signatureStop →
      signatureStop ≤ r.stop → Seam code signatureStop → shape.Readable code →
      (∀ c, shape.callable? = some c → c.WellLaid code ⟨start, signatureStop⟩ r) →
      MemberLayout.mk r ⟨start, max signatureStop start⟩ shape = m →
      m.range = r ∧ m.WellLaid code ∧ m.Readable code := by
    rintro signatureStop shape hle hstop' hseam hread hcallable rfl
    have hmax : max signatureStop start = signatureStop := Nat.max_eq_left hle
    rw [hmax]
    exact ⟨rfl, ⟨⟨hs1, hle, hstop'⟩, hcallable⟩,
      ⟨Nat.le_of_lt hlt, hstart, hstop⟩, ⟨hle, hs3, hseam⟩, hread⟩
  have opaqueUpTo := fun (signatureStop : Nat) h1 h2 h3 =>
    upTo signatureStop .other h1 h2 h3 trivial (by simp [MemberShape.callable?])
  split at h
  · exact opaqueUpTo _ hs2 (Nat.le_refl _) hstop h
  · rename_i pos hpos
    obtain ⟨hp1, hp2, hp3⟩ := deciderFrom_spec rfl hpos
    have hseam : Seam code pos := by
      rcases hp3 with h | h | h | h <;> exact (seam_of_solid h (by decide)).1
    have hopaque := opaqueUpTo pos hp1 (Nat.le_of_lt hp2) hseam
    split at h
    · exact hopaque h
    · split at h
      · rename_i hopen
        split at h
        · exact hopaque h
        · rename_i shape hshape
          obtain ⟨c, hc, hclosing, hread, hlaid⟩ := callable?_spec hp1 (by simpa using hopen) hs3
            hstop huncut r rfl hshape
          simp only [hc, Option.elim_some] at h
          refine upTo (c.closing + 1) shape ?_ hclosing ?_ hread (fun c' hc' => ?_) h
          · have := hlaid.ordered
            have := hlaid.lead
            have := hlaid.lead_before
            simp only at *
            omega
          · exact (seam_of_solid hlaid.closes (by decide)).2
          · rw [hc] at hc'
            obtain rfl := Option.some.inj hc'
            exact hlaid
      · split at h
        · exact hopaque h
        · split at h
          · exact opaqueUpTo _ hs2 (Nat.le_refl _) hstop h
          · rename_i f hf
            exact upTo _ (.field f) hs2 (Nat.le_refl _) hstop (field?_spec (by omega) hs3 hstop hf)
              (by simp [MemberShape.callable?]) h

end ClassRefactor.Code
