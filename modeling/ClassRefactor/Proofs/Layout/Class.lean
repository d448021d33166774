import ClassRefactor.Layout.Class
import ClassRefactor.Proofs.Code.Local
import ClassRefactor.Proofs.Layout.Member

/-!
# Classes are well laid

A class is found from its keyword: its declaration reaches back from there, its name, its body and
its members follow. The last parameter of a member reaches up to the closing parenthesis, blanks left
out, and the statements of its body are cut from what stands between the braces.
-/

namespace ClassRefactor.Code

variable {code : Code}

theorem occurrencesFrom_spec {word cells : Code} {skip pos p : Nat}
    (h : p ∈ occurrencesFrom word skip pos cells) :
    pos ≤ p ∧ word <+: cells.drop (p - pos) := by
  induction cells generalizing skip pos with
  | nil => cases h
  | cons c rest ih =>
    have next : ∀ {skip : Nat}, p ∈ occurrencesFrom word skip (pos + 1) rest →
        pos ≤ p ∧ word <+: (c :: rest).drop (p - pos) := by
      intro skip h
      obtain ⟨h1, h2⟩ := ih h
      have hsub : p - pos = p - (pos + 1) + 1 := by omega
      rw [hsub, List.drop_succ_cons]
      exact ⟨by omega, h2⟩
    cases skip with
    | succ skip => exact next h
    | zero =>
      simp only [occurrencesFrom] at h
      split at h
      · rename_i hword
        rcases List.mem_cons.mp h with rfl | h
        · simpa using List.isPrefixOf_iff_prefix.mp hword
        · exact next h
      · exact next h

/-- Each cell of a word stands where the word occurs. -/
theorem getElem?_of_mem_wordPositions {word : Code} {p i : Nat} {c : Char}
    (h : p ∈ wordPositions word code) (hc : word[i]? = some c) : code[p + i]? = some c := by
  obtain ⟨-, tail, htail⟩ := occurrencesFrom_spec (List.mem_filter.mp h).1
  have hlt := (List.getElem?_eq_some_iff.mp hc).1
  rw [Nat.sub_zero] at htail
  rw [← List.getElem?_drop, ← htail, List.getElem?_append_left hlt, hc]

theorem classBodyFrom_spec {depth pos p : Nat} {cells : Code}
    (h : classBodyFrom depth pos cells = some p) : pos ≤ p ∧ cells[p - pos]? = some '{' := by
  induction cells generalizing depth pos with
  | nil => cases h
  | cons c rest ih =>
    have next : ∀ {depth : Nat}, classBodyFrom depth (pos + 1) rest = some p →
        pos ≤ p ∧ (c :: rest)[p - pos]? = some '{' := by
      intro depth h
      obtain ⟨h1, h2⟩ := ih h
      have hsub : p - pos = p - (pos + 1) + 1 := by omega
      rw [hsub, List.getElem?_cons_succ]
      exact ⟨by omega, h2⟩
    unfold classBodyFrom at h
    split at h
    · exact next h
    · split at h
      · exact next h
      · split at h
        · rename_i hbrace
          simp only [Bool.and_eq_true, beq_iff_eq] at hbrace
          obtain rfl := Option.some.inj h
          simp [hbrace.2]
        · split at h
          · cases h
          · exact next h

/-- A reach back ends at the front of the code, or at a cell that ends what precedes. -/
theorem reachBack_spec (brackets : Nat) (cells : Code) :
    reachBack brackets cells ≤ cells.length ∧
      (reachBack brackets cells < cells.length →
        ∃ c, cells[reachBack brackets cells]? = some c ∧ isSolid c = true) := by
  induction cells generalizing brackets with
  | nil => simp [reachBack]
  | cons c rest ih =>
    have next : ∀ brackets, reachBack brackets rest + 1 ≤ (c :: rest).length ∧
        (reachBack brackets rest + 1 < (c :: rest).length →
          ∃ d, (c :: rest)[reachBack brackets rest + 1]? = some d ∧ isSolid d = true) := by
      intro brackets
      obtain ⟨h1, h2⟩ := ih brackets
      simp only [List.length_cons, List.getElem?_cons_succ]
      exact ⟨by omega, fun hlt => h2 (by omega)⟩
    unfold reachBack
    split
    · exact next _
    · split
      · exact next _
      · split
        · rename_i hend
          simp only [Bool.and_eq_true, Bool.or_eq_true, beq_iff_eq] at hend
          refine ⟨Nat.zero_le _, fun _ => ⟨c, rfl, ?_⟩⟩
          rcases hend.2 with (rfl | rfl) | rfl <;> decide
        · exact next _

/-- A declaration starts at a seam before its keyword. -/
theorem declarationStart_spec {keyword : Nat} (hkeyword : Seam code keyword) :
    code.declarationStart keyword ≤ keyword ∧ Seam code (code.declarationStart keyword) := by
  have hlen : (code.take keyword).reverse.length = keyword := by
    have := hkeyword.le
    simp only [List.length_reverse, List.length_take]
    omega
  obtain ⟨hle, hsolid⟩ := reachBack_spec 0 (code.take keyword).reverse
  rw [hlen] at hle hsolid
  generalize hn : reachBack 0 (code.take keyword).reverse = n at *
  have hseam : Seam code (keyword - n) := by
    rcases Nat.lt_or_ge n keyword with hlt | hge
    · obtain ⟨c, hc, hcs⟩ := hsolid hlt
      rw [List.getElem?_reverse (by simp only [List.length_reverse] at hlen; omega),
        List.getElem?_take_of_lt (by simp only [List.length_reverse] at hlen; omega)] at hc
      have hat : keyword - n = (code.take keyword).length - 1 - n + 1 := by
        simp only [List.length_reverse] at hlen
        omega
      rw [hat]
      exact (seam_of_solid hc hcs).2
    · rw [Nat.sub_eq_zero_of_le hge]
      exact seam_zero code
  obtain ⟨-, h2, h3⟩ := skipBlanks_spec (Nat.sub_le keyword n) hseam hkeyword
  simp only [declarationStart, hn]
  exact ⟨h2, h3⟩

theorem typeParams?_spec {pos : Nat} {typeParams : Option Range} (hpos : Seam code pos)
    (h : code.typeParams? pos = some typeParams) :
    code.FitsIfAny typeParams ∧ pos ≤ typeParams.elim pos Range.stop ∧
      Seam code (typeParams.elim pos Range.stop) := by
  unfold typeParams? at h
  split at h
  · obtain ⟨close, hclose, rfl⟩ := Option.map_eq_some_iff.mp h
    obtain ⟨-, hlt, hc⟩ := matchingClose?_spec hclose
    have hseam := (seam_of_solid hc (by decide)).2
    refine ⟨fun r hr => ?_, by simp only [Option.elim_some]; omega, hseam⟩
    obtain rfl := Option.some.inj hr
    exact ⟨by simp only; omega, hpos, hseam⟩
  · obtain rfl := Option.some.inj h
    exact ⟨by simp [FitsIfAny], Nat.le_refl _, hpos⟩

/-- A segment does not cut an arrow in two. -/
theorem sealed_of_sound {stop : Nat} {r : Range}
    (h : Segment.Sound code stop r) (hstop : code[stop]? = some '}') : Sealed code r.stop := by
  intro heq
  rcases h.ends with hend | hend | hend
  · rw [hend, hstop]
    decide
  · rw [hend] at heq
    cases heq
  · rw [hend] at heq
    cases heq

theorem uncut_of_sound {stop : Nat} {r : Range}
    (h : Segment.Sound code stop r) (hstop : code[stop]? = some '}') : Uncut code r.stop :=
  fun heq => (sealed_of_sound h hstop heq).2

/-- The members of a class have the ranges that they were read from. -/
theorem map_range_memberLayout (className : Code) (rs : List Range) :
    (rs.map (code.memberLayout className)).map MemberLayout.range = rs := by
  rw [List.map_map]
  exact (List.map_congr_left fun r _ => memberLayout_range code className r).trans (List.map_id _)

/-- The class whose keyword stands at a position. -/
theorem classAt?_spec {keyword : Nat} {c : ClassLayout}
    (hkeyword : keyword ∈ wordPositions "class".toList code)
    (h : code.classAt? keyword = some c) : c.WellLaid code ∧ c.Readable code := by
  have hfirst : code[keyword + 0]? = some 'c' := getElem?_of_mem_wordPositions hkeyword rfl
  have hlast : code[keyword + 4]? = some 's' := getElem?_of_mem_wordPositions hkeyword rfl
  rw [Nat.add_zero] at hfirst
  have hend := seam_length code
  obtain ⟨hs1, hs2⟩ := declarationStart_spec (seam_of_solid hfirst (by decide)).1
  have hafter : Seam code (keyword + "class".length) := (seam_of_solid hlast (by decide)).2
  obtain ⟨hn1, hn2, hn3⟩ := skipBlanks_spec hafter.le hafter hend
  have hnameStop : code.skipBlanks (keyword + "class".length) code.length ≤
      code.identEnd (code.skipBlanks (keyword + "class".length) code.length) code.length :=
    Nat.le_add_right ..
  have hstopSeam := seam_run isIdentCell hn2 hn3 hend
  rw [← identEnd] at hstopSeam
  simp only [classAt?] at h
  generalize code.skipBlanks (keyword + "class".length) code.length = nameStart at *
  generalize code.identEnd nameStart code.length = nameStop at *
  obtain ⟨ht1, -, ht3⟩ := skipBlanks_spec hstopSeam.le hstopSeam hend
  split at h
  · cases h
  · simp only [Option.bind_eq_bind, Option.bind_eq_some_iff, Option.some.injEq] at h
    obtain ⟨typeParams, htypeParams, opening, hopening, closing, hclosing, rfl⟩ := h
    obtain ⟨hp1, hp2, hp3⟩ := typeParams?_spec ht3 htypeParams
    obtain ⟨hb, -⟩ := classBodyFrom_spec hopening
    obtain ⟨hopen, hlt, hclose⟩ := matchingClose?_spec hclosing
    have hopenSeam := seam_of_solid hopen (by decide)
    have hcloseSeam := seam_of_solid hclose (by decide)
    obtain ⟨hlaid, hsound⟩ := memberRanges_spec hlt hopenSeam.2 hcloseSeam.1
    -- Each member range satisfies what the member layouts ask of it.
    have hmember : ∀ r ∈ code.memberRanges (opening + 1) closing,
        (code.memberLayout (code.window nameStart nameStop) r).WellLaid code ∧
          (code.memberLayout (code.window nameStart nameStop) r).Readable code := by
      intro r hr
      have hr' := hsound r hr
      exact (memberLayout_spec (hlaid.within r hr).2.1 hr'.seams.1 hr'.seams.2
        (uncut_of_sound hr' hclose) rfl).2
    have hstart : code.declarationStart keyword ≤ opening := by
      have : keyword ≤ keyword + "class".length := Nat.le_add_right ..
      omega
    constructor
    · refine ⟨rfl, hstart, rfl, hlt, rfl, ?_, hopen, hclose, ?_, ?_⟩
      · exact hcloseSeam.2.le
      · rw [map_range_memberLayout]
        exact hlaid
      · intro m hm
        obtain ⟨r, hr, rfl⟩ := List.mem_map.mp hm
        exact (hmember r hr).1
    · refine ⟨⟨?_, hs2, hcloseSeam.2⟩, ⟨hstart, hs2, hopenSeam.1⟩, ⟨hnameStop, hn3, hstopSeam⟩,
        hp1, ⟨hb, hp3, hopenSeam.1⟩, fun m hm => ?_⟩
      · simp only
        omega
      · obtain ⟨r, hr, rfl⟩ := List.mem_map.mp hm
        exact (hmember r hr).2

theorem le_of_typeParams? {p : Nat} {t : Option Range} (h : code.typeParams? p = some t) :
    p ≤ t.elim p Range.stop := by
  unfold typeParams? at h
  split at h
  · obtain ⟨close, hclose, rfl⟩ := Option.map_eq_some_iff.mp h
    obtain ⟨-, hlt, -⟩ := matchingClose?_spec hclose
    exact Nat.le_succ_of_le (Nat.le_of_lt hlt)
  · obtain rfl := Option.some.inj h
    exact Nat.le_refl p

/-- The head of a class stands before its body, and its members are those of its body. -/
theorem classLayouts_parts {c : ClassLayout} (h : c ∈ code.classLayouts) :
    c.name.stop ≤ c.opening ∧ (∀ r, c.typeParams = some r → r.stop ≤ c.opening) ∧
      c.tail.stop = c.opening ∧
      c.members = (code.memberRanges (c.opening + 1) c.closing).map
        (code.memberLayout (code.window c.name.start c.name.stop)) := by
  obtain ⟨keyword, -, hc⟩ := List.mem_filterMap.mp h
  simp only [classAt?] at hc
  generalize code.skipBlanks (keyword + "class".length) code.length = nameStart at *
  generalize code.identEnd nameStart code.length = nameStop at *
  have hnext : nameStop ≤ code.skipBlanks nameStop code.length := Nat.le_add_right ..
  split at hc
  · cases hc
  · simp only [Option.bind_eq_bind, Option.bind_eq_some_iff, Option.some.injEq] at hc
    obtain ⟨typeParams, htypeParams, opening, hopening, closing, -, rfl⟩ := hc
    obtain ⟨hbody, -⟩ := classBodyFrom_spec hopening
    refine ⟨?_, fun r hr => ?_, rfl, rfl⟩
    · exact Nat.le_trans hnext (Nat.le_trans (le_of_typeParams? htypeParams) hbody)
    · obtain rfl : typeParams = some r := hr
      exact hbody

theorem classLayouts_spec {c : ClassLayout} (h : c ∈ code.classLayouts) :
    c.WellLaid code ∧ c.Readable code := by
  obtain ⟨keyword, hkeyword, hc⟩ := List.mem_filterMap.mp h
  exact classAt?_spec hkeyword hc

theorem ident_window_identEnd (start stop : Nat) :
    ∀ d ∈ code.window start (code.identEnd start stop), isIdentCell d = true := by
  intro d hd
  have hsplit : code.window start (code.identEnd start stop) =
      (code.window start stop).takeWhile isIdentCell := by
    have hle := leading_le isIdentCell (code.window start stop)
    rw [length_window] at hle
    have htake : (code.window start stop).take (leading isIdentCell (code.window start stop)) =
        (code.window start stop).takeWhile isIdentCell := by
      rw [leading, ← List.prefix_iff_eq_take.mp (List.takeWhile_prefix _)]
    rw [← htake, identEnd]
    generalize leading isIdentCell (code.window start stop) = n at *
    rw [window, window, Nat.add_sub_cancel_left, List.take_take, Nat.min_eq_left (by omega)]
  rw [hsplit] at hd
  exact List.all_eq_true.mp List.all_takeWhile d hd

/-- The name of a class is a word. -/
theorem classLayouts_name {c : ClassLayout} (h : c ∈ code.classLayouts) :
    code.window c.name.start c.name.stop ≠ [] ∧
      ∀ d ∈ code.window c.name.start c.name.stop, isIdentCell d = true := by
  obtain ⟨keyword, -, hc⟩ := List.mem_filterMap.mp h
  simp only [classAt?] at hc
  split at hc
  · cases hc
  · rename_i hname
    simp only [Option.bind_eq_bind, Option.bind_eq_some_iff, Option.some.injEq] at hc
    obtain ⟨-, -, -, -, -, -, rfl⟩ := hc
    refine ⟨?_, ident_window_identEnd _ _⟩
    rintro hnil
    simp [hnil] at hname

/-- The segments of a class body lie between the braces, each in its place. -/
theorem memberRanges_of_wellLaid {c : ClassLayout} (h : c.WellLaid code) :
    Range.Laid (c.opening + 1) c.closing (code.memberRanges (c.opening + 1) c.closing) ∧
      ∀ r ∈ code.memberRanges (c.opening + 1) c.closing, Segment.Sound code c.closing r :=
  memberRanges_spec h.ordered (seam_of_solid h.opens (by decide)).2
    (seam_of_solid h.closes (by decide)).1

/-- Each member of a class is a segment of its body. -/
theorem sound_of_mem_members {c : ClassLayout} (h : c ∈ code.classLayouts) {m : MemberLayout}
    (hm : m ∈ c.members) : Segment.Sound code c.closing m.range := by
  obtain ⟨hlaid, -⟩ := classLayouts_spec h
  obtain ⟨-, -, -, hmembers⟩ := classLayouts_parts h
  rw [hmembers] at hm
  obtain ⟨r, hr, rfl⟩ := List.mem_map.mp hm
  rw [memberLayout_range]
  exact (memberRanges_of_wellLaid hlaid).2 r hr

theorem Tiles.stop_of_getLast? {start stop : Nat} {rs : List Range} {r : Range}
    (h : Tiles code stop start rs) (hr : rs.getLast? = some r) : r.stop = stop := by
  induction h with
  | last h =>
    obtain rfl := Option.some.inj hr
    rfl
  | @more start comma rest hle hlt hcomma hrest ih =>
    apply ih
    obtain ⟨s, ss, rfl⟩ := List.exists_cons_of_ne_nil hrest.ne_nil
    simpa [List.getLast?_cons_cons] using hr

theorem parameter?_range {r : Range} {p : ParameterLayout} (h : code.parameter? r = some p) :
    p.range = r := by
  simp only [parameter?, Option.bind_eq_bind, Option.bind_eq_some_iff, Option.some.injEq] at h
  obtain ⟨-, -, rfl⟩ := h
  rfl

/-- Only blanks stand between the last parameter and the closing parenthesis. -/
theorem isLayoutBlank_of_parameters? {opening closing i : Nat} {ps : List ParameterLayout}
    {p : ParameterLayout} (hlt : opening < closing) (hclose : closing ≤ code.length)
    (h : code.parameters? opening closing = some ps) (hp : ps.getLast? = some p)
    (hi : p.range.stop ≤ i) (hic : i < closing) :
    ∃ c, code[i]? = some c ∧ isLayoutBlank c = true := by
  unfold parameters? at h
  split at h
  · obtain rfl := Option.some.inj h
    cases hp
  · have htiles := tiles_commaRanges hlt hclose
    rw [mapM_eq_some_iff] at h
    generalize code.commaRanges (opening + 1) closing = pieces at h htiles
    rw [List.getLast?_eq_getElem?] at hp
    obtain ⟨piece, hpiece, hparameter⟩ := exists_getElem?_of_forall₂ h hp
    have hlast : pieces.getLast? = some piece := by
      rw [List.getLast?_eq_getElem?, h.length_eq]
      exact hpiece
    have hstop := htiles.stop_of_getLast? hlast
    have hin := htiles.mem (List.mem_of_getElem? hpiece)
    rw [parameter?_range hparameter] at hi
    simp only [trimBlanks, hstop] at hi
    have hstart : code.skipBlanks piece.start closing ≤ closing := by
      have := (run_spec isLayoutBlank (hstop ▸ hin.2.1) hclose).1
      exact this
    exact (runBack_spec isLayoutBlank hstart hclose).2.1 i hi hic

theorem classLayouts_callable? {layout : ClassLayout} (h : layout ∈ code.classLayouts)
    {m : MemberLayout} (hm : m ∈ layout.members) {c : CallableLayout}
    (hc : m.shape.callable? = some c) :
    code.parameters? c.opening c.closing = some c.params ∧
      ∃ pos stop, code.body? pos stop = some c.body := by
  obtain ⟨-, -, -, hmembers⟩ := classLayouts_parts h
  rw [hmembers] at hm
  obtain ⟨r, -, rfl⟩ := List.mem_map.mp hm
  obtain ⟨opening, -, -, -, hread⟩ := memberLayout_callable? hc
  have hfound := callable?_found hread hc
  obtain ⟨pos, -, hbody, -⟩ := hfound.body
  exact ⟨hfound.params, pos, r.stop, hbody⟩

/-- The statements of a body are those cut between its braces. -/
theorem statements_of_body? {pos stop : Nat} {body : BodyLayout} {b : BlockLayout}
    (h : code.body? pos stop = some body) (hb : body.block? = some b) :
    b.statements = code.statementRanges (b.opening + 1) b.closing := by
  unfold body? at h
  split at h
  · obtain rfl := Option.some.inj h
    cases hb
  · split at h
    · obtain ⟨closing, -, rfl⟩ := Option.map_eq_some_iff.mp h
      obtain rfl := Option.some.inj hb
      rfl
    · split at h
      all_goals
        obtain rfl := Option.some.inj h
        cases hb

end ClassRefactor.Code
