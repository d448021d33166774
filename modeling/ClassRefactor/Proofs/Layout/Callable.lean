import ClassRefactor.Proofs.Collect
import ClassRefactor.Proofs.Layout.WellLaid

/-!
# Constructors and methods are well laid

The parts of a constructor or method are found from the parenthesis that opens its parameters: the
name before it, the parameters after it, and the body after those.
-/

namespace ClassRefactor.Code

variable {code : Code}

/-- What follows an assignment up to the end of its piece. -/
theorem fitsIfAny_assigned {start stop : Nat} (hstop : Seam code stop) :
    code.FitsIfAny ((code.assignment? start stop).map fun p => ⟨p + 1, stop⟩) := by
  intro r hr
  obtain ⟨p, hp, rfl⟩ := Option.map_eq_some_iff.mp hr
  obtain ⟨-, hlt, heq⟩ := assignment?_spec hp
  exact ⟨hlt, (seam_of_solid heq (by decide)).2, hstop⟩

theorem parameter?_spec {r : Range} {p : ParameterLayout} (hr : code.Fits r)
    (h : code.parameter? r = some p) : p.range = r ∧ r.start < r.stop ∧ p.Readable code := by
  obtain ⟨hle, hstart, hstop⟩ := hr
  obtain ⟨ha1, ha2, ha3⟩ := skipAttributes_spec hle hstart hstop
  obtain ⟨hm1, hm2, hm3⟩ := modifiers_spec parameterModifiers ha2 ha3 hstop
  obtain ⟨he1, he2, he3⟩ := assignment?_getD_spec hm2 hstop
  simp only [parameter?, Option.bind_eq_bind, Option.bind_eq_some_iff, Option.some.injEq] at h
  obtain ⟨⟨type, name⟩, htype, rfl⟩ := h
  obtain ⟨ht, hn, hts, h1, h2, h3, h4⟩ := typeAndName?_spec he1 hm3 he3 htype
  exact ⟨rfl, by omega, ⟨hle, hstart, hstop⟩, ht, hn, fitsIfAny_assigned hstop⟩

/-- The parameters between two parentheses. -/
theorem parameters?_spec {opening closing : Nat} {ps : List ParameterLayout}
    (hlt : opening < closing) (hopen : Seam code (opening + 1)) (hclose : Seam code closing)
    (h : code.parameters? opening closing = some ps) :
    Range.Laid (opening + 1) closing (ps.map ParameterLayout.range) ∧
      ∀ p ∈ ps, p.Readable code := by
  unfold parameters? at h
  split at h
  · obtain rfl := Option.some.inj h
    exact ⟨by simpa using Range.Laid.nil, by simp⟩
  · have htiles := tiles_commaRanges hlt hclose.le
    rw [mapM_eq_some_iff] at h
    generalize code.commaRanges (opening + 1) closing = pieces at h htiles
    -- Each piece gives one parameter within it, so the parameters lie as the pieces do.
    have key : ∀ {start : Nat}, Tiles code closing start pieces → Seam code start →
        Range.Laid start closing (ps.map ParameterLayout.range) ∧ ∀ p ∈ ps, p.Readable code := by
      clear htiles
      induction h with
      | nil => intro start ht; exact absurd rfl ht.ne_nil
      | @cons piece p pieces ps hp hps ih =>
        intro start ht hstart
        have hpiece := ht.mem List.mem_cons_self
        have hseams := ht.seam hstart hclose List.mem_cons_self
        obtain ⟨hs1, hs2, hs3⟩ := skipBlanks_spec hpiece.2.1 hseams.1 hseams.2
        obtain ⟨ht1, ht2, ht3⟩ := trimBlanks_spec hs2 hs3 hseams.2
        obtain ⟨hrange, hne, hread⟩ := parameter?_spec ⟨ht1, hs3, ht3⟩ hp
        simp only at hne
        have hrest : Range.Laid piece.stop closing (ps.map ParameterLayout.range) ∧
            ∀ q ∈ ps, q.Readable code := by
          cases ht with
          | last _ => cases hps; exact ⟨.nil, by simp⟩
          | more hle _ hcomma hrest =>
            have := ih hrest (seam_of_solid hcomma (by decide)).2
            exact ⟨this.1.mono (Nat.le_succ _), this.2⟩
        constructor
        · rw [List.map_cons, hrange]
          refine .cons (by simp only; omega) hne (by simp only; omega) (hrest.1.mono ?_)
          simp only
          omega
        · intro q hq
          rcases List.mem_cons.mp hq with rfl | hq
          · exact hread
          · exact hrest.2 q hq
    exact key htiles hopen

/-- The identifier that ends at `stop`, with dots for a qualified name. -/
theorem qualifiedName_spec {start stop width : Nat} (hle : start ≤ stop) (hstart : Seam code start)
    (hstop : Seam code stop) (hne : width ≠ 0)
    (h : trailing (fun c => isIdentCell c || c == '.') (code.window start stop) = width) :
    start ≤ stop - width ∧ stop - width < stop ∧ code.Fits ⟨stop - width, stop⟩ := by
  subst h
  have hback := (runBack_spec (fun c => isIdentCell c || c == '.') hle hstop.le).1
  have hseam := seam_runBack (fun c => isIdentCell c || c == '.') hle hstart hstop
  have hlen := trailing_le (fun c => isIdentCell c || c == '.') (code.window start stop)
  rw [length_window_of_le hstop.le] at hlen
  exact ⟨hback, by omega, Nat.sub_le .., hseam, hstop⟩

/-- The way back from a `>` leads to the `<` that it closes. -/
theorem matchingOpen_spec {start stop width : Nat} (hstop : stop ≤ code.length)
    (h : matchingClose? '>' '<' (code.window start stop).reverse 0 = some width) :
    start ≤ stop - 1 - width ∧ stop - 1 - width < stop ∧ code[stop - 1 - width]? = some '<' := by
  obtain ⟨-, -, hless⟩ := matchingClose?_spec h
  have hlen : (code.window start stop).length = stop - start := length_window_of_le hstop
  have hw := (List.getElem?_eq_some_iff.mp hless).1
  rw [List.length_reverse, hlen] at hw
  rw [List.getElem?_reverse (by omega), hlen, getElem?_window_of_lt (by omega)] at hless
  have hat : start + (stop - start - 1 - width) = stop - 1 - width := by omega
  rw [hat] at hless
  exact ⟨by omega, by omega, hless⟩

/-- The name of a callable, and its type parameters, stand before its parameters. -/
theorem callableName?_spec {start opening : Nat} {name : Range} {typeParams : Option Range}
    (hle : start ≤ opening) (hstart : Seam code start) (hopen : Seam code opening)
    (h : code.callableName? start opening = some (name, typeParams)) :
    start ≤ name.start ∧ name.start < name.stop ∧ name.stop ≤ opening ∧ code.Fits name ∧
      code.FitsIfAny typeParams := by
  obtain ⟨ht1, ht2, ht3⟩ := trimBlanks_spec hle hstart hopen
  simp only [callableName?, Option.bind_eq_bind] at h
  generalize code.trimBlanks start opening = stop at h ht1 ht2 ht3
  split at h
  · rename_i hclose
    simp only [Bool.and_eq_true, decide_eq_true_eq, beq_iff_eq] at hclose
    obtain ⟨width, hwidth, h⟩ := Option.bind_eq_some_iff.mp h
    obtain ⟨hw, -, hless⟩ := matchingOpen_spec ht3.le hwidth
    have hseam := (seam_of_solid hless (by decide)).1
    obtain ⟨h1, h2, h3⟩ := trimBlanks_spec hw hstart hseam
    simp only [Option.bind_some] at h
    split at h
    · cases h
    · rename_i hne
      obtain ⟨hq1, hq2, hq3⟩ := qualifiedName_spec h1 hstart h3 (by simpa using hne) rfl
      simp only [Option.some.injEq, Prod.mk.injEq] at h
      obtain ⟨rfl, rfl⟩ := h
      refine ⟨hq1, hq2, by simp only; omega, hq3, fun r hr => ?_⟩
      obtain rfl := Option.some.inj hr
      exact ⟨by simp only; omega, hseam, ht3⟩
  · simp only [Option.bind_some] at h
    split at h
    · cases h
    · rename_i hne
      obtain ⟨hq1, hq2, hq3⟩ := qualifiedName_spec ht1 hstart ht3 (by simpa using hne) rfl
      simp only [Option.some.injEq, Prod.mk.injEq] at h
      obtain ⟨rfl, rfl⟩ := h
      exact ⟨hq1, hq2, ht2, hq3, by simp [FitsIfAny]⟩

/-- Where a body may begin: at a brace, a `;` or an arrow, or where the member stops. -/
def BodyStart (code : Code) (stop pos : Nat) : Prop :=
  pos = stop ∨ pos < stop ∧ (code[pos]? = some '{' ∨ code[pos]? = some ';' ∨
    (code[pos]? = some '=' ∧ code[pos + 1]? = some '>'))

theorem BodyStart.seam {stop pos : Nat} (h : BodyStart code stop pos) (hstop : Seam code stop) :
    Seam code pos := by
  rcases h with rfl | ⟨-, h | h | ⟨h, -⟩⟩
  · exact hstop
  all_goals exact (seam_of_solid h (by decide)).1

theorem BodyStart.le {stop pos : Nat} (h : BodyStart code stop pos) : pos ≤ stop := by
  rcases h with rfl | ⟨h, -⟩
  · exact Nat.le_refl _
  · exact Nat.le_of_lt h

theorem bodyStartFrom_spec {stop skip pos p : Nat} {cells : Code} (hstop : stop ≤ code.length)
    (hpos : pos ≤ stop) (hcells : code.window pos stop = cells)
    (h : code.bodyStartFrom stop skip pos cells = some p) : pos ≤ p ∧ BodyStart code stop p := by
  induction cells generalizing skip pos with
  | nil =>
    have hend : pos = stop := Nat.le_antisymm hpos (window_eq_nil hcells hstop)
    obtain rfl := Option.some.inj h
    exact ⟨Nat.le_refl _, .inl hend⟩
  | cons c rest ih =>
    obtain ⟨hlt, hc, hrest⟩ := window_eq_cons hcells
    -- All branches but one go on with the cell after this one.
    have next : ∀ {skip : Nat}, code.bodyStartFrom stop skip (pos + 1) rest = some p →
        pos ≤ p ∧ BodyStart code stop p := by
      intro skip h
      obtain ⟨h1, h2⟩ := ih hlt hrest.symm h
      exact ⟨by omega, h2⟩
    cases skip with
    | succ skip => exact next h
    | zero =>
      simp only [bodyStartFrom] at h
      split at h
      · rename_i hbegin
        obtain rfl := Option.some.inj h
        simp only [Bool.or_eq_true, Bool.and_eq_true, beq_iff_eq] at hbegin
        refine ⟨Nat.le_refl _, .inr ⟨hlt, ?_⟩⟩
        rw [hc]
        rcases hbegin with (rfl | rfl) | ⟨rfl, harrow⟩
        · exact .inl rfl
        · exact .inr (.inl rfl)
        · exact .inr (.inr ⟨rfl, harrow⟩)
      · split at h
        · split at h
          · cases h
          · exact next h
        · exact next h

/-- A member that stops at `stop` does not cut an arrow in two. -/
def Uncut (code : Code) (stop : Nat) : Prop :=
  code[stop - 1]? = some '=' → code[stop]? ≠ some '>'

theorem blockLayout_spec {lo hi opening closing : Nat} (hlo : lo < opening)
    (hopen : code[opening]? = some '{') (hlt : opening < closing) (hhi : closing < hi)
    (hclose : code[closing]? = some '}') :
    (code.blockLayout opening closing).WellLaid code lo hi ∧
      ∀ r ∈ (code.blockLayout opening closing).statements, code.Fits r := by
  have hs := statementRanges_spec hlt (seam_of_solid hopen (by decide)).2
    (seam_of_solid hclose (by decide)).1
  exact ⟨⟨hlo, hlt, hhi, hopen, hclose, hs.1⟩, hs.2⟩

theorem body?_spec {lo pos stop : Nat} {body : BodyLayout} (hlo : lo < pos)
    (hpos : BodyStart code stop pos) (hstop : Seam code stop) (huncut : Uncut code stop)
    (h : code.body? pos stop = some body) :
    body.Readable code ∧ ∀ b, body.block? = some b → b.WellLaid code lo stop := by
  unfold body? at h
  split at h
  · obtain rfl := Option.some.inj h
    exact ⟨trivial, by simp [BodyLayout.block?]⟩
  · rename_i hlt
    split at h
    · obtain ⟨close, hclose, rfl⟩ := Option.map_eq_some_iff.mp h
      obtain ⟨ho, h1, h2, hc⟩ := matchingClose?_take_spec hclose
      obtain ⟨hlaid, hfits⟩ := blockLayout_spec hlo ho h1 h2 hc
      exact ⟨hfits, fun b hb => Option.some.inj hb ▸ hlaid⟩
    · rename_i hbrace
      split at h
      · rename_i heq
        obtain rfl := Option.some.inj h
        refine ⟨?_, by simp [BodyLayout.block?]⟩
        have harrow : code[pos + 1]? = some '>' := by
          rcases hpos with rfl | ⟨-, hb | hb | ⟨-, hb⟩⟩
          · omega
          · simp [hb] at hbrace
          · simp [hb] at heq
          · exact hb
        have heq : code[pos]? = some '=' := by simpa using heq
        -- The arrow lies before `stop`, and is no `;`.
        have hin : pos + 1 < stop := by
          rcases Nat.lt_or_ge (pos + 1) stop with hin | hin
          · exact hin
          · have hat : stop = pos + 1 := by omega
            subst hat
            exact absurd harrow (huncut (by simpa using heq))
        obtain ⟨-, -, hseam⟩ := withoutSemicolon_spec hin hstop
        refine ⟨?_, (seam_of_solid harrow (by decide)).2, hseam⟩
        simp only [withoutSemicolon]
        split
        · rename_i hsemi
          have hne : stop - 1 ≠ pos + 1 := by
            intro hat
            rw [hat, harrow] at hsemi
            simp at hsemi
          omega
        · exact hin
      · obtain rfl := Option.some.inj h
        exact ⟨trivial, by simp [BodyLayout.block?]⟩

/-- How the parts of a constructor or method are found, from the parenthesis that opens its
parameters. -/
structure Found (code : Code) (start opening stop : Nat) (c : CallableLayout) : Prop where
  name : code.callableName? start opening = some (c.name, c.typeParams)
  no_tilde : ¬(start < c.name.start && code[c.name.start - 1]? == some '~') = true
  lead : c.lead = ⟨code.skipBlanks start c.name.start, c.name.start⟩
  result : c.result = ⟨(code.modifiers memberModifiers start c.name.start).2, c.name.start⟩
  opening : c.opening = opening
  closing : matchingClose? '(' ')' (code.take stop) c.opening = some c.closing
  params : code.parameters? c.opening c.closing = some c.params
  body : ∃ pos, code.bodyStartFrom stop 0 (c.closing + 1) (code.window (c.closing + 1) stop) =
    some pos ∧ code.body? pos stop = some c.body ∧ c.tail = ⟨c.closing + 1, min pos stop⟩

/-- A callable is a method if something stands between its modifiers and its name. -/
theorem callable?_cases {className : Code} {start opening stop : Nat} {shape : MemberShape}
    (h : code.callable? className start opening stop = some shape) :
    ∃ c, code.Found start opening stop c ∧
      (shape = .constructor c ∧ code.isWhiteBetween c.result.start c.result.stop = true ∨
        shape = .method c ∧ code.isWhiteBetween c.result.start c.result.stop = false) := by
  simp only [callable?, Option.bind_eq_bind, Option.bind_eq_some_iff] at h
  obtain ⟨⟨name, typeParams⟩, hname, h⟩ := h
  simp only at h
  split at h
  · cases h
  · rename_i htilde
    simp only [Option.bind_eq_some_iff] at h
    obtain ⟨closing, hclosing, params, hparams, pos, hpos, body, hbody, h⟩ := h
    split at h
    · rename_i hwhite
      split at h
      · exact ⟨_, ⟨hname, htilde, rfl, rfl, rfl, hclosing, hparams, pos, hpos, hbody, rfl⟩,
          .inl ⟨(Option.some.inj h).symm, hwhite⟩⟩
      · cases h
    · rename_i hwhite
      exact ⟨_, ⟨hname, htilde, rfl, rfl, rfl, hclosing, hparams, pos, hpos, hbody, rfl⟩,
        .inr ⟨(Option.some.inj h).symm, Bool.not_eq_true _ ▸ hwhite⟩⟩

theorem lt_of_isWhiteBetween {lo hi : Nat} (h : code.isWhiteBetween lo hi = false) : lo < hi := by
  refine Nat.lt_of_not_le fun hge => ?_
  rw [isWhiteBetween, window_of_le hge] at h
  cases h

theorem callable?_found {className : Code} {start opening stop : Nat} {shape : MemberShape}
    {c : CallableLayout} (h : code.callable? className start opening stop = some shape)
    (hc : shape.callable? = some c) : code.Found start opening stop c := by
  obtain ⟨c', hfound, ⟨rfl, -⟩ | ⟨rfl, -⟩⟩ := callable?_cases h
  all_goals
    obtain rfl := Option.some.inj hc
    exact hfound

/-- The parts of a constructor or method, found from the parenthesis that opens its parameters. -/
theorem callable?_spec {className : Code} {start opening stop : Nat} {shape : MemberShape}
    (hle : start ≤ opening) (hopen : code[opening]? = some '(') (hstart : Seam code start)
    (hstop : Seam code stop) (huncut : Uncut code stop) (range : Range) (hrange : range.stop = stop)
    (h : code.callable? className start opening stop = some shape) :
    ∃ c, shape.callable? = some c ∧ c.closing < stop ∧ shape.Readable code ∧
      c.WellLaid code ⟨start, c.closing + 1⟩ range := by
  obtain ⟨c, hfound, hshape⟩ := callable?_cases h
  obtain rfl := hfound.opening
  obtain ⟨hn1, hn2, hn3, hn4, hn5⟩ :=
    callableName?_spec hle hstart (seam_of_solid hopen (by decide)).1 hfound.name
  obtain ⟨-, hlt, hclt, hclose⟩ := matchingClose?_take_spec hfound.closing
  have hcloseSeam := seam_of_solid hclose (by decide)
  obtain ⟨hp1, hp2⟩ := parameters?_spec hlt (seam_of_solid hopen (by decide)).2 hcloseSeam.1
    hfound.params
  obtain ⟨pos, hpos, hbody, htail⟩ := hfound.body
  obtain ⟨hb1, hb2⟩ := bodyStartFrom_spec hstop.le hclt rfl hpos
  obtain ⟨hbody1, hbody2⟩ := body?_spec hb1 hb2 hstop huncut hbody
  obtain ⟨hl1, hl2, hl3⟩ := skipBlanks_spec hn1 hstart hn4.2.1
  obtain ⟨hm1, hm2, hm3⟩ := modifiers_spec memberModifiers hn1 hstart hn4.2.1
  have hlaid : c.WellLaid code ⟨start, c.closing + 1⟩ range := by
    refine ⟨?_, ?_, hlt, rfl, hopen, hclose, hp1, fun b hb => ?_⟩
    · rw [hfound.lead]
      exact ⟨hl1, hl2, by simp only; omega⟩
    · rw [hfound.lead]
      simp only
      omega
    · rw [hrange]
      exact hbody2 b hb
  have hread : c.Readable code := by
    refine ⟨?_, ?_, hn4, hn5, hp2, ?_, hbody1⟩
    · rw [hfound.lead]
      exact ⟨hl2, hl3, hn4.2.1⟩
    · rw [hfound.result]
      exact ⟨hm2, hm3, hn4.2.1⟩
    · rw [htail, Nat.min_eq_left hb2.le]
      exact ⟨hb1, hcloseSeam.2, hb2.seam hstop⟩
  rcases hshape with ⟨rfl, -⟩ | ⟨rfl, -⟩
  · exact ⟨c, rfl, hclt, hread, hlaid⟩
  · exact ⟨c, rfl, hclt, hread, hlaid⟩

end ClassRefactor.Code
