import ClassRefactor.Proofs.Tree.Content
import ClassRefactor.Proofs.Tree.Shape

/-!
# What formatting decides about a type

Names and suffixes lose their white space, and argument lists are found by angle brackets alone. But
where an argument list is cut depends on whether an inner `<` stands directly after an identifier.
That is all formatting decides, and it does not matter for a type in which no comma stands within
inner angle brackets.
-/

namespace ClassRefactor

/-! ### Parts of a type -/

namespace Code

/-- Whether a text closes the angle brackets that it opens and just `depth` of those before it. -/
def closesAngles : Nat → Text → Bool
  | depth, [] => depth == 0
  | depth, c :: t =>
    if c == '<' then closesAngles (depth + 1) t
    else if c == '>' then depth != 0 && closesAngles (depth - 1) t
    else closesAngles depth t

theorem closeFrom_eq_length_iff (depth : Nat) (t rest : Text) :
    closeFrom '<' '>' depth (t ++ '>' :: rest) = some t.length ↔ closesAngles depth t = true := by
  induction t generalizing depth with
  | nil => cases depth <;> simp [closeFrom, closesAngles]
  | cons c t ih =>
    rw [List.cons_append, closesAngles, List.length_cons]
    by_cases hopen : c = '<'
    · simpa [closeFrom, hopen] using ih (depth + 1)
    · by_cases hclose : c = '>'
      · cases depth with
        | zero => simp [closeFrom, hclose]
        | succ depth => simpa [closeFrom, hclose] using ih depth
      · simpa [closeFrom, hopen, hclose] using ih depth

theorem closesAngles_strip (depth : Nat) (t : Text) :
    closesAngles depth t.strip = closesAngles depth t := by
  induction t generalizing depth with
  | nil => rfl
  | cons c t ih =>
    by_cases hc : isWhite c = true
    · obtain ⟨-, hopen, hclose, -⟩ := ne_of_isWhite hc
      rw [Text.strip_cons_of_white hc, ih, closesAngles, if_neg (by simpa using hopen),
        if_neg (by simpa using hclose)]
    · rw [Text.strip_cons_of_solid (by simpa using hc), closesAngles, closesAngles, ih, ih, ih]

end Code

namespace TypeRef

variable {s t name inner suffix : Text}

theorem splitArguments?_append {name : Text} (hname : '<' ∉ name) (rest : Text) :
    splitArguments? (name ++ '<' :: rest) =
      (Code.closeFrom '<' '>' 0 rest).map fun n => (name, rest.take n, rest.drop (n + 1)) := by
  have hpass : ∀ c ∈ name, (c != '<') = true := fun c hc => by
    simpa using fun heq : c = '<' => hname (heq ▸ hc)
  simp [splitArguments?, List.dropWhile_append_of_pos hpass, List.takeWhile_append_of_pos hpass]

/-- A text has an argument list from its first `<` on if that is closed. -/
theorem splitArguments?_eq_some_iff : splitArguments? t = some (name, inner, suffix) ↔
    t = name ++ '<' :: (inner ++ '>' :: suffix) ∧ '<' ∉ name ∧
      Code.closesAngles 0 inner = true := by
  constructor
  · intro h
    obtain ⟨ht, htake⟩ := eq_of_splitArguments? h
    have hname : '<' ∉ name := fun hmem => by
      rw [htake] at hmem
      simpa using List.all_eq_true.mp List.all_takeWhile _ hmem
    rw [ht, splitArguments?_append hname] at h
    obtain ⟨n, hn, hparts⟩ := Option.map_eq_some_iff.mp h
    obtain ⟨-, hinner, -⟩ : name = name ∧ (inner ++ '>' :: suffix).take n = inner ∧ _ := by
      simpa using hparts
    obtain ⟨hlt, -⟩ := List.getElem?_eq_some_iff.mp (Code.closeFrom_spec hn)
    have hlength : n = inner.length := by
      rw [← congrArg List.length hinner, List.length_take, Nat.min_eq_left (Nat.le_of_lt hlt)]
    exact ⟨ht, hname, (Code.closeFrom_eq_length_iff 0 inner suffix).mp (hlength ▸ hn)⟩
  · rintro ⟨rfl, hname, hcloses⟩
    rw [splitArguments?_append hname, (Code.closeFrom_eq_length_iff 0 inner suffix).mpr hcloses]
    simp

/-- Formatting does not move the parts of a type. -/
theorem exists_splitArguments? (hstrip : s.strip = t.strip)
    (h : splitArguments? t = some (name, inner, suffix)) :
    ∃ name' inner' suffix', splitArguments? s = some (name', inner', suffix') ∧
      name'.strip = name.strip ∧ inner'.strip = inner.strip ∧ suffix'.strip = suffix.strip := by
  obtain ⟨rfl, hname, hcloses⟩ := splitArguments?_eq_some_iff.mp h
  obtain ⟨name', rest, rfl, hname', hrest⟩ := Text.exists_of_strip_eq (by decide) hstrip
  obtain ⟨inner', suffix', rfl, hinner', hsuffix'⟩ := Text.exists_of_strip_eq (by decide) hrest
  refine ⟨name', inner', suffix', splitArguments?_eq_some_iff.mpr ⟨rfl, fun hmem => hname ?_, ?_⟩,
    hname', hinner', hsuffix'⟩
  · exact (Text.mem_iff_of_strip_eq (by decide) hname').mp hmem
  · rw [← Code.closesAngles_strip, hinner', Code.closesAngles_strip, hcloses]

theorem splitArguments?_eq_none (hstrip : s.strip = t.strip) (h : splitArguments? t = none) :
    splitArguments? s = none := by
  cases hs : splitArguments? s with
  | none => rfl
  | some parts =>
    obtain ⟨_, _, _, ht, -⟩ := exists_splitArguments? hstrip.symm hs
    rw [h] at ht
    cases ht

theorem head?_trim_ne (h : '(' ∉ t) : ¬(t.trim.head? == some '(') = true := by
  intro hhead
  have hmem : '(' ∈ t.trim := List.mem_of_head? (beq_iff_eq.mp hhead)
  exact h ((Text.mem_iff_of_strip_eq (by decide) (Text.strip_trim t)).mp hmem)

theorem parse_of_splitArguments?_eq_none (hparen : '(' ∉ t) (h : splitArguments? t = none) :
    parse t = ⟨.ofList t.strip, [], ""⟩ := by
  rw [parse_eq, if_neg (head?_trim_ne hparen), splitArguments?_eq_none (Text.strip_trim t) h,
    Text.strip_trim]

/-- Trimming moves nothing into the argument list. -/
theorem parse_of_splitArguments? (hparen : '(' ∉ t)
    (h : splitArguments? t = some (name, inner, suffix)) :
    parse t =
      ⟨.ofList name.strip, (Code.commaPieces inner).map parse, .ofList suffix.strip⟩ := by
  obtain ⟨ht, hname, hcloses⟩ := splitArguments?_eq_some_iff.mp h
  have htrim : t.trim = name.trimStart ++ '<' :: (inner ++ '>' :: suffix.trimEnd) := by
    rw [ht, Text.trim, Text.trimStart_append_cons (by decide), ← List.cons_append,
      ← List.append_assoc, Text.trimEnd_append_cons (by decide), List.append_assoc,
      List.cons_append]
  have hname' : '<' ∉ name.trimStart := fun hmem =>
    hname ((List.dropWhile_suffix isWhite).subset hmem)
  rw [parse_eq, if_neg (head?_trim_ne hparen),
    splitArguments?_eq_some_iff.mpr ⟨htrim, hname', hcloses⟩]
  simp only [Text.strip_trimStart, Text.strip_trimEnd]

theorem subset_of_mem_commaPieces {p : Text} (hp : p ∈ Code.commaPieces t) : p ⊆ t := by
  obtain ⟨q, qs, hpieces, hjoin⟩ := Code.exists_commaPiecesFrom [] t 0 0
  rw [Code.commaPieces, hpieces] at hp
  rw [List.reverse_nil, List.nil_append] at hjoin
  rw [← hjoin]
  rcases List.mem_cons.mp hp with rfl | hp
  · exact List.subset_append_left _ _
  · intro c hc
    exact List.mem_append_right _ (List.mem_flatMap.mpr ⟨p, hp, List.mem_cons_of_mem _ hc⟩)

/-- The pieces of an argument list are shorter than the type, and hold nothing else. -/
theorem piece_of_splitArguments? {p : Text} (h : splitArguments? t = some (name, inner, suffix))
    (hp : p ∈ Code.commaPieces inner) : p.length < t.length ∧ p ⊆ t := by
  have hle := length_le_of_mem_commaPiecesFrom hp
  have hlt := length_lt_of_splitArguments? h
  refine ⟨by simp only [List.length_nil] at hle; omega, fun c hc => ?_⟩
  rw [(splitArguments?_eq_some_iff.mp h).1]
  have hinner := subset_of_mem_commaPieces hp hc
  simp [hinner]

theorem map_parse_eq {β : Type} {f : Text → β} {ps qs : List Text} (h : ps.map f = qs.map f)
    (hparse : ∀ p ∈ ps, ∀ q, f p = f q → parse p = parse q) : ps.map parse = qs.map parse := by
  induction ps generalizing qs with
  | nil => rw [List.map_eq_nil_iff.mp h.symm]
  | cons p ps ih =>
    cases qs with
    | nil => cases h
    | cons q qs =>
      obtain ⟨hpq, hrest⟩ := List.cons.inj h
      rw [List.map_cons, List.map_cons, hparse p List.mem_cons_self q hpq,
        ih hrest fun p hp => hparse p (List.mem_cons_of_mem _ hp)]

/-! ### What formatting decides -/

/-- The first `<` opens the argument list, the others stand in the list or after it. -/
theorem openings_of_splitArguments? (h : splitArguments? t = some (name, inner, suffix)) :
    t.openings.tail = inner.openings ++ suffix.openings := by
  obtain ⟨rfl, hname, -⟩ := splitArguments?_eq_some_iff.mp h
  have hnone : name.shape.filter (fun x => x.char == '<') = [] := by
    refine List.filter_eq_nil_iff.mpr fun x hx hopen => hname ?_
    rw [← Text.mem_strip (by decide), ← Text.map_char_shape, ← beq_iff_eq.mp hopen]
    exact List.mem_map_of_mem hx
  have hinner : Text.shapeFrom (some '<') (inner ++ '>' :: suffix) =
      inner.shape ++ Sign.after (inner.getLast?.or none) '>' (by decide) :: suffix.shape := by
    rw [Text.shapeFrom_some (by decide), Text.shape, Text.shapeFrom_append, Text.shapeFrom,
      dif_neg (by decide), Text.shapeFrom_some (by decide)]
    rfl
  rw [Text.openings, Text.shape, Text.shapeFrom_append, Text.shapeFrom, dif_neg (by decide), hinner]
  simp only [Text.shape] at hnone
  simp [hnone, Text.openings, Text.shape, Sign.after]

/-- Types differ at most in how their argument lists are cut. -/
theorem parse_eq_of_pieces (hparen : '(' ∉ t) (hstrip : s.strip = t.strip)
    (hpieces : ∀ {name inner suffix name' inner' suffix' : Text},
      splitArguments? t = some (name, inner, suffix) →
      splitArguments? s = some (name', inner', suffix') → inner'.strip = inner.strip →
      (Code.commaPieces inner).map parse = (Code.commaPieces inner').map parse) :
    parse s = parse t := by
  have hparen' : '(' ∉ s := (Text.mem_iff_of_strip_eq (by decide) hstrip).not.mpr hparen
  cases h : splitArguments? t with
  | none =>
    rw [parse_of_splitArguments?_eq_none hparen h,
      parse_of_splitArguments?_eq_none hparen' (splitArguments?_eq_none hstrip h), hstrip]
  | some parts =>
    obtain ⟨name, inner, suffix⟩ := parts
    obtain ⟨name', inner', suffix', h', hname, hinner, hsuffix⟩ := exists_splitArguments? hstrip h
    rw [parse_of_splitArguments? hparen h, parse_of_splitArguments? hparen' h', hname, hsuffix,
      hpieces h h' hinner]

/-- All that formatting decides is which inner `<` stand directly after an identifier. -/
theorem parse_eq_of_openings (hparen : '(' ∉ t) (hstrip : s.strip = t.strip)
    (hopenings : s.openings.tail = t.openings.tail) : parse s = parse t := by
  induction hn : t.length using Nat.strongRecOn generalizing s t with
  | ind n ih =>
    refine parse_eq_of_pieces hparen hstrip fun {name inner suffix _ inner' _} h h' hinner => ?_
    rw [openings_of_splitArguments? h, openings_of_splitArguments? h'] at hopenings
    have hlength : inner'.openings.length = inner.openings.length := by
      rw [Text.length_openings, Text.length_openings, hinner]
    have hshape := Text.shape_eq_of_openings hinner (List.append_inj_left hopenings hlength)
    have hpieces : (Code.commaPieces inner).map Text.shape =
        (Code.commaPieces inner').map Text.shape := by
      rw [Code.map_shape_commaPieces, Code.map_shape_commaPieces, hshape]
    refine map_parse_eq hpieces fun p hp q hpq => ?_
    obtain ⟨hlt, hsubset⟩ := piece_of_splitArguments? h hp
    exact (ih p.length (hn ▸ hlt) (fun hmem => hparen (hsubset hmem))
      (Text.strip_eq_of_shape_eq hpq.symm) (by rw [Text.openings, Text.openings, hpq]) rfl).symm

theorem parse_eq_of_shape (hparen : '(' ∉ t) (h : s.shape = t.shape) : parse s = parse t :=
  parse_eq_of_openings hparen (Text.strip_eq_of_shape_eq h)
    (by rw [Text.openings, Text.openings, h])

/-- Types that do not change with formatting: in no argument list a comma stands within inner angle
brackets, unless it stands within brackets of another kind. -/
inductive Steady : Text → Prop
  | bare {t : Text} (h : splitArguments? t = none) : Steady t
  | generic {t name inner suffix : Text} (h : splitArguments? t = some (name, inner, suffix))
    (hcommas : Code.openCommas 0 0 inner = true)
    (hpieces : ∀ p ∈ Code.commaPieces inner, Steady p) : Steady t

theorem parse_eq_of_steady (ht : Steady t) (hparen : '(' ∉ t) (hstrip : s.strip = t.strip) :
    parse s = parse t := by
  induction ht generalizing s with
  | bare h =>
    refine parse_eq_of_pieces hparen hstrip fun h' => ?_
    rw [h] at h'
    cases h'
  | generic h hcommas _ ih =>
    refine parse_eq_of_pieces hparen hstrip fun h₁ _ hinner => ?_
    obtain ⟨rfl, rfl, rfl⟩ : _ ∧ _ ∧ _ := by simpa using h.symm.trans h₁
    refine map_parse_eq (Code.map_strip_commaPieces_eq hinner hcommas).symm fun p hp q hpq => ?_
    have hpiece : '(' ∉ p := fun hmem => hparen ((piece_of_splitArguments? h hp).2 hmem)
    exact (ih p hp hpiece hpq.symm).symm

section

variable (hparen : '(' ∉ t) (hall : ∀ s : Text, s.strip = t.strip → parse s = parse t)
  (h : splitArguments? t = some (name, inner, suffix))
include hparen hall h

/-- If formatting does not matter for a type, it does not for its argument list. -/
theorem map_parse_of_strip_eq {inner' : Text} (hinner : inner'.strip = inner.strip) :
    (Code.commaPieces inner').map parse = (Code.commaPieces inner).map parse := by
  obtain ⟨ht, hname, hcloses⟩ := splitArguments?_eq_some_iff.mp h
  have hstrip : Text.strip (name ++ '<' :: (inner' ++ '>' :: suffix)) = t.strip := by
    have hparts : ∀ u : Text, Text.strip (name ++ '<' :: (u ++ '>' :: suffix)) =
        name.strip ++ '<' :: (u.strip ++ '>' :: suffix.strip) := fun u => by
      rw [Text.strip_append, Text.strip_cons_of_solid (by decide), Text.strip_append,
        Text.strip_cons_of_solid (by decide)]
    rw [ht, hparts, hparts, hinner]
  have h' : splitArguments? (name ++ '<' :: (inner' ++ '>' :: suffix)) =
      some (name, inner', suffix) := by
    refine splitArguments?_eq_some_iff.mpr ⟨rfl, hname, ?_⟩
    rw [← Code.closesAngles_strip, hinner, Code.closesAngles_strip, hcloses]
  have hparse := hall _ hstrip
  rw [parse_of_splitArguments? hparen h, parse_of_splitArguments?
    ((Text.mem_iff_of_strip_eq (by decide) hstrip).not.mpr hparen) h'] at hparse
  exact (TypeRef.mk.inj hparse).2.1

/-- The formattings compared here count every inner `<` and none. -/
theorem openCommas_of_parse_eq : Code.openCommas 0 0 inner = true := by
  have hpieces : ∀ shape : List Sign, shape.map Sign.char = inner.strip →
      (Code.shapePiecesFrom [] 0 0 shape).length = (Code.commaPieces inner).length := by
    intro shape hchar
    have hstrip : (Text.ofShape shape).strip = inner.strip := by
      rw [← Text.map_char_shape, Text.shape_ofShape, hchar]
    have hmap := map_parse_of_strip_eq hparen hall h hstrip
    rw [← Text.shape_ofShape shape, ← Code.map_shape_commaPieces, List.length_map]
    simpa using congrArg List.length hmap
  have hmarked := hpieces (inner.shape.map Sign.marked)
    (by rw [List.map_map]; exact Text.map_char_shape inner)
  have hunmarked := hpieces (inner.shape.map Sign.unmarked)
    (by rw [List.map_map]; exact Text.map_char_shape inner)
  rw [← Code.openCommas_strip, ← Text.map_char_shape]
  exact (Code.length_shapePiecesFrom_le [] [] inner.shape 0 0).2 (hmarked.trans hunmarked.symm)

/-- If formatting does not matter for a type, it does not for its arguments: another formatting of
one argument is put in its place. -/
theorem parse_eq_of_mem_commaPieces {p u : Text} (hp : p ∈ Code.commaPieces inner)
    (hu : u.strip = p.strip) : parse u = parse p := by
  obtain ⟨l, r, hlr⟩ := List.append_of_mem hp
  have hopen := openCommas_of_parse_eq hparen hall h
  have hchar : (l.map Text.shape ++ u.shape :: r.map Text.shape).map (fun a => a.map Sign.char) =
      (Code.commaPieces inner).map Text.strip := by
    simp [hlr, Function.comp_def, Text.map_char_shape, hu]
  generalize has : l.map Text.shape ++ u.shape :: r.map Text.shape = as at hchar
  have hshape := Text.shape_ofShape (List.intercalate [.comma] as)
  generalize Text.ofShape (List.intercalate [.comma] as) = inner' at hshape
  have hstrip : inner'.strip = inner.strip := by
    rw [← Text.map_char_shape inner', hshape, Code.map_char_intercalate, hchar,
      Code.map_strip_commaPieces, ← Code.map_shape_commaPieces, ← Code.map_char_intercalate,
      Code.intercalate_shape_commaPieces, Text.map_char_shape]
  have hpieces : (Code.commaPieces inner').map Text.shape = as := by
    refine Code.eq_of_intercalate_eq ?_ ?_
    · rw [Code.map_shape_commaPieces, ← Code.map_strip_commaPieces, hchar,
        Code.map_strip_commaPieces_eq hstrip hopen]
    · rw [Code.intercalate_shape_commaPieces, hshape]
  obtain ⟨l', rest, hpieces', hl, hrest⟩ := List.map_eq_append_iff.mp (hpieces.trans has.symm)
  obtain ⟨q, r', rfl, hq, -⟩ := List.map_eq_cons_iff.mp hrest
  have hparse := map_parse_of_strip_eq hparen hall h hstrip
  rw [hpieces', hlr, List.map_append, List.map_append] at hparse
  have hlength : (l'.map parse).length = (l.map parse).length := by
    simpa using congrArg List.length hl
  have hqp : parse q = parse p := (List.cons.inj (List.append_inj_right hparse hlength)).1
  have hpiece : '(' ∉ p := fun hmem => hparen ((piece_of_splitArguments? h hp).2 hmem)
  rw [← hqp]
  exact (parse_eq_of_shape ((Text.mem_iff_of_strip_eq (by decide) hu).not.mpr hpiece) hq).symm

end

theorem steady_of_parse_eq (hparen : '(' ∉ t)
    (hall : ∀ s : Text, s.strip = t.strip → parse s = parse t) : Steady t := by
  induction hn : t.length using Nat.strongRecOn generalizing t with
  | ind n ih =>
    cases h : splitArguments? t with
    | none => exact .bare h
    | some parts =>
      obtain ⟨name, inner, suffix⟩ := parts
      refine .generic h (openCommas_of_parse_eq hparen hall h) fun p hp => ?_
      obtain ⟨hlt, hsubset⟩ := piece_of_splitArguments? h hp
      exact ih p.length (hn ▸ hlt) (fun hmem => hparen (hsubset hmem))
        (fun u hu => parse_eq_of_mem_commaPieces hparen hall h hp hu) rfl

/-- Two formattings of a type without parentheses are read as the same type if, apart from the first
`<`, the same `<` stand directly after an identifier. All formattings are read as the same type
exactly if no comma of an argument list stands within inner angle brackets. -/
theorem parse_formatting (t : Text) (hparen : '(' ∉ t) :
    (∀ s : Text, s.strip = t.strip → s.openings.tail = t.openings.tail → parse s = parse t) ∧
      ((∀ s : Text, s.strip = t.strip → parse s = parse t) ↔ Steady t) :=
  ⟨fun _ hstrip hopenings => parse_eq_of_openings hparen hstrip hopenings,
    steady_of_parse_eq hparen, fun ht _ hstrip => parse_eq_of_steady ht hparen hstrip⟩

/-- With a space in front of the inner `<` the list is cut within it. -/
theorem parse_spacedList :
    '(' ∉ "D<List <a,b>>".toList ∧ ')' ∉ "D<List <a,b>>".toList ∧
      Text.strip "D<List <a,b>>".toList = Text.strip "D<List<a,b>>".toList ∧
      parse "D<List <a,b>>".toList = ⟨"D", [⟨"List<a", [], ""⟩, ⟨"b>", [], ""⟩], ""⟩ ∧
      parse "D<List<a,b>>".toList = ⟨"D", [⟨"List", [⟨"a", [], ""⟩, ⟨"b", [], ""⟩], ""⟩], ""⟩ ∧
      parse "D<List <a,b>>".toList ≠ parse "D<List<a,b>>".toList := by
  decide +kernel

/-- A comma within the inner list makes formatting matter, one beside it does not. -/
theorem parse_formatting_nestedList :
    '(' ∉ "D<List<a,b>>".toList ∧
      parse "D < List<a,\n b> >".toList = parse "D<List<a,b>>".toList ∧
      ¬Steady "D<List<a,b>>".toList ∧
      '(' ∉ "D<a,List<b>>".toList ∧
      ∀ s : Text, s.strip = Text.strip "D<a,List<b>>".toList →
        parse s = parse "D<a,List<b>>".toList := by
  have hinner : '(' ∉ "D<List<a,b>>".toList := by decide
  have hbeside : '(' ∉ "D<a,List<b>>".toList := by decide
  obtain ⟨hopenings, hall⟩ := parse_formatting "D<List<a,b>>".toList hinner
  have hb : Steady "b".toList := .bare (by decide)
  have hlist : Steady "List<b>".toList := by
    refine .generic (by decide : _ = some ("List".toList, "b".toList, [])) (by decide) ?_
    rw [(by decide : Code.commaPieces "b".toList = ["b".toList])]
    exact List.forall_mem_singleton.mpr hb
  have hsteady : Steady "D<a,List<b>>".toList := by
    refine .generic (by decide : _ = some ("D".toList, "a,List<b>".toList, [])) (by decide) ?_
    rw [(by decide : Code.commaPieces "a,List<b>".toList = ["a".toList, "List<b>".toList])]
    exact List.forall_mem_cons.mpr ⟨.bare (by decide), List.forall_mem_singleton.mpr hlist⟩
  refine ⟨hinner, hopenings _ (by decide +kernel) (by decide +kernel), fun h => ?_, hbeside,
    (parse_formatting "D<a,List<b>>".toList hbeside).2.mpr hsteady⟩
  exact absurd (hall.mpr h "D<List <a,b>>".toList (by decide +kernel)) (by decide +kernel)

end TypeRef

end ClassRefactor
