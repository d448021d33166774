import ClassRefactor.Proofs.Guarded.Mask
import ClassRefactor.Proofs.Guarded.Member

/-!
# Guarded reading of source files

The whole way from a text to its classes: the text is masked, the keywords are searched, each class
is read from its keyword on, with its name, its type parameters, the braces of its body and the
members between them, and the classes around each class are counted. On no text does a step of the
way breach its guard.
-/

namespace ClassRefactor.Guarded

/-- A cell between the name of a class and its body; `depth` counts open parentheses and
brackets. -/
def classBodyTurn (depth pos : Nat) (c : Char) : Guarded (Turn Nat (Option Nat)) :=
  if c == '(' || c == '[' then return .go (depth + 1) (pos + 1)
  else if c == ')' || c == ']' then return .go (depth - 1) (pos + 1)
  else if depth == 0 && c == '{' then return .done (some pos)
  else if depth == 0 && (c == ';' || c == '}') then return .done none
  else return .go depth (pos + 1)

/-- Where the body of a class begins. -/
def classBody (code : Code) (pos : Nat) : Guarded (Option Nat) :=
  sweep code code.length classBodyTurn (fun _ _ => return none) 0 pos

/-- Where the type parameters at `pos` end, and the type parameters. There is no answer if they do
not close. -/
def typeParams (s : Source) (pos : Nat) : Guarded (Option (Nat × Option (Range × String))) :=
  if s.masked.cells[pos]? == some '<' then do
    match ← matchingClose '<' '>' s.masked.cells pos with
    | none => return none
    | some close =>
      let text ← lift (s.verbatim ⟨pos, close + 1⟩)
      return some (close + 1, some (⟨pos, close + 1⟩, text))
  else return some (pos, none)

/-- Reads the class whose keyword stands at `keyword`, if it declares one. -/
def classAt (s : Source) (keyword : Nat) : Guarded (Option (ClassLayout × ClassNode)) := do
  let nameStart ← skipBlanks s.masked.cells (keyword + "class".length) s.masked.cells.length
  let nameStop ← identEnd s.masked.cells nameStart s.masked.cells.length
  let nameText ← cut s.masked ⟨nameStart, nameStop⟩
  let name := nameText.cells
  if name.isEmpty || name == "where".toList then return none
  else
    match ← typeParams s (← skipBlanks s.masked.cells nameStop s.masked.cells.length) with
    | none => return none
    | some (tailStart, typeParams) =>
      match ← classBody s.masked.cells tailStart with
      | none => return none
      | some opening =>
        match ← matchingClose '{' '}' s.masked.cells opening with
        | none => return none
        | some closing =>
          let bases ← lift (s.clause ⟨tailStart, opening⟩)
          let start ← declarationStart s.masked.cells keyword
          let modifiers ← classModifiers s.masked start keyword
          let ranges ← memberRanges s.masked.cells (opening + 1) closing
          let members ← ranges.mapM (member s name)
          let whole ← range start (closing + 1)
          let header ← range start opening
          return some
            ({ range := whole, header, modifiers, name := ⟨nameStart, nameStop⟩
               typeParams := typeParams.map Prod.fst, tail := ⟨tailStart, opening⟩, opening
               closing, members := members.map Prod.fst },
              { name := .ofList nameText, typeParams := typeParams.map Prod.snd, modifiers, bases
                members := members.map Prod.snd })

theorem classBody_eq (code : Code) (pos : Nat) :
    classBody code pos = .ok (Code.classBodyFrom 0 pos (code.drop pos)) := by
  rw [← Code.window_length]
  refine sweep_eq (fun depth pos => Code.classBodyFrom depth pos (code.window pos code.length))
    (fun _ _ => True) (Nat.le_refl _) (fun depth pos hle _ => ?_) (fun depth pos c hlt hc _ => ?_)
    trivial
  · rw [Code.window_of_le hle]
    rfl
  · rw [Code.window_of_lt hlt hc, Code.classBodyFrom, classBodyTurn]
    split
    · exact .inr ⟨_, _, rfl, Nat.lt_succ_self _, trivial, rfl⟩
    · split
      · exact .inr ⟨_, _, rfl, Nat.lt_succ_self _, trivial, rfl⟩
      · split
        · exact .inl rfl
        · split
          · exact .inl rfl
          · exact .inr ⟨_, _, rfl, Nat.lt_succ_self _, trivial, rfl⟩

section

variable {s : Source} (hs : s.Sound)
include hs

theorem typeParams_spec {pos : Nat} (hpos : Code.Seam s.masked.cells pos) :
    ∃ o, typeParams s pos = .ok o ∧ Option.Rel (fun r q => q.1 = r.elim pos Range.stop ∧
      q.2.map Prod.fst = r ∧ Source.optional s.verbatim r = .ok (q.2.map Prod.snd))
      (Code.typeParams? s.masked.cells pos) o := by
  unfold typeParams Code.typeParams?
  split
  · rw [matchingClose_eq (by decide), ok_bind]
    cases hclose : Code.matchingClose? '<' '>' s.masked.cells pos with
    | none => exact ⟨none, rfl, .none⟩
    | some close =>
      obtain ⟨-, hlt, hcell⟩ := Code.matchingClose?_spec hclose
      have htext := Source.verbatim_eq hs (r := ⟨pos, close + 1⟩)
        ⟨Nat.le_succ_of_le (Nat.le_of_lt hlt), hpos, (Code.seam_of_solid hcell (by decide)).2⟩
      simp only [lift_eq htext, ok_bind]
      exact ⟨_, rfl, .some ⟨rfl, rfl, by rw [Source.optional, htext]; rfl⟩⟩
  · exact ⟨_, rfl, .some ⟨rfl, rfl, rfl⟩⟩

/-- The members in some ranges. -/
theorem members_spec (className : Code) {ranges : List Range}
    (h : ∀ r ∈ ranges, r.start < r.stop ∧ Code.Seam s.masked.cells r.start ∧
      Code.Seam s.masked.cells r.stop ∧ Code.Uncut s.masked.cells r.stop) :
    ∃ members, ranges.mapM (member s className) = .ok members ∧
      members.map Prod.fst = ranges.map (Code.memberLayout s.masked.cells className) ∧
      (members.map Prod.fst).mapM (MemberLayout.read s) = .ok (members.map Prod.snd) := by
  induction ranges with
  | nil => exact ⟨[], rfl, rfl, rfl⟩
  | cons r ranges ih =>
    obtain ⟨hlt, hstart, hstop, huncut⟩ := h r List.mem_cons_self
    obtain ⟨tree, hmember, hread⟩ := member_spec hs className hlt hstart hstop huncut
    obtain ⟨members, hmembers, hlayouts, hreads⟩ :=
      ih fun r' hr' => h r' (List.mem_cons_of_mem _ hr')
    refine ⟨(_, tree) :: members, ?_, by rw [List.map_cons, List.map_cons, hlayouts], ?_⟩
    · rw [List.mapM_cons, hmember, ok_bind, hmembers]
      rfl
    · rw [List.map_cons, List.mapM_cons, hread, ok_bind, hreads]
      rfl

theorem classAt_spec {keyword : Nat}
    (hkeyword : keyword ∈ Code.wordPositions "class".toList s.masked.cells) :
    ∃ o, classAt s keyword = .ok o ∧
      Answers (ClassLayout.read s) (Code.classAt? s.masked.cells keyword) o := by
  have hfirst : s.masked.cells[keyword + 0]? = some 'c' :=
    Code.getElem?_of_mem_wordPositions hkeyword rfl
  have hlast : s.masked.cells[keyword + 4]? = some 's' :=
    Code.getElem?_of_mem_wordPositions hkeyword rfl
  rw [Nat.add_zero] at hfirst
  have hend := Code.seam_length s.masked.cells
  have hkeySeam := (Code.seam_of_solid hfirst (by decide)).1
  obtain ⟨hs1, hs2⟩ := Code.declarationStart_spec hkeySeam
  have hafter : Code.Seam s.masked.cells (keyword + "class".length) :=
    (Code.seam_of_solid hlast (by decide)).2
  obtain ⟨hn1, hn2, hn3⟩ := Code.skipBlanks_spec hafter.le hafter hend
  have hstopSeam := Code.seam_run isIdentCell hn2 hn3 hend
  rw [← Code.identEnd] at hstopSeam
  have hnameLe : Code.skipBlanks s.masked.cells (keyword + "class".length) s.masked.cells.length ≤
      Code.identEnd s.masked.cells (Code.skipBlanks s.masked.cells (keyword + "class".length)
        s.masked.cells.length) s.masked.cells.length := Nat.le_add_right ..
  rw [classAt, skipBlanks_eq (Nat.le_refl _), ok_bind, identEnd_eq (Nat.le_refl _), ok_bind]
  simp only [Code.classAt?]
  generalize Code.skipBlanks s.masked.cells (keyword + "class".length) s.masked.cells.length =
    nameStart at *
  generalize Code.identEnd s.masked.cells nameStart s.masked.cells.length = nameStop at *
  have hname : Code.Fits s.masked.cells ⟨nameStart, nameStop⟩ := ⟨hnameLe, hn3, hstopSeam⟩
  obtain ⟨hcut, hcells⟩ := cut_of_fits hname
  have hnameRead := Source.name_eq hs hname
  obtain ⟨ht1, -, ht3⟩ := Code.skipBlanks_spec hstopSeam.le hstopSeam hend
  simp only [hcut, ok_bind, hcells]
  split
  · exact ⟨none, rfl, .none⟩
  · obtain ⟨o, ho, htypeParams⟩ := typeParams_spec hs ht3
    have hspec := fun (r : Option Range)
      (h : Code.typeParams? s.masked.cells
        (Code.skipBlanks s.masked.cells nameStop s.masked.cells.length) = some r) =>
        Code.typeParams?_spec ht3 h
    simp only [skipBlanks_eq (Nat.le_refl _), ho, ok_bind, Option.bind_eq_bind]
    generalize Code.skipBlanks s.masked.cells nameStop s.masked.cells.length = next at *
    generalize Code.typeParams? s.masked.cells next = found at *
    cases htypeParams with
    | none => exact ⟨none, rfl, .none⟩
    | @some r q hq =>
      obtain ⟨tailStart, typeParams⟩ := q
      obtain ⟨h1, h2, htypeRead⟩ := hq
      simp only at h1 h2 htypeRead
      obtain ⟨-, hp2, hp3⟩ := hspec _ rfl
      rw [← h1] at hp2 hp3
      subst h2
      simp only [classBody_eq, ok_bind, Option.bind_some, ← h1]
      cases hopening : Code.classBodyFrom 0 tailStart (s.masked.cells.drop tailStart) with
      | none => exact ⟨none, rfl, .none⟩
      | some opening =>
        simp only [matchingClose_eq (show '{' ≠ '}' by decide), ok_bind, Option.bind_some]
        cases hclosing : Code.matchingClose? '{' '}' s.masked.cells opening with
        | none => exact ⟨none, rfl, .none⟩
        | some closing =>
          obtain ⟨hb, -⟩ := Code.classBodyFrom_spec hopening
          obtain ⟨hopen, hlt, hclose⟩ := Code.matchingClose?_spec hclosing
          have hopenSeam := Code.seam_of_solid hopen (by decide)
          have hcloseSeam := Code.seam_of_solid hclose (by decide)
          have hinside : opening + 1 ≤ closing := hlt
          have hstart : Code.declarationStart s.masked.cells keyword ≤ opening := by
            have : keyword ≤ keyword + "class".length := Nat.le_add_right ..
            omega
          have hwhole : Code.declarationStart s.masked.cells keyword ≤ closing + 1 := by omega
          obtain ⟨bases, hbases⟩ := Source.exists_clause hs (r := ⟨tailStart, opening⟩)
            ⟨hb, hp3, hopenSeam.1⟩
          obtain ⟨hlaid, hsound⟩ := Code.memberRanges_spec hinside hopenSeam.2 hcloseSeam.1
          obtain ⟨members, hmembers, hlayouts, hreads⟩ := members_spec hs
            (Code.window s.masked.cells nameStart nameStop) fun r hr =>
              have hr' := hsound r hr
              ⟨(hlaid.within r hr).2.1, hr'.seams.1, hr'.seams.2,
                Code.uncut_of_sound hr' hclose⟩
          simp only [lift_eq hbases, declarationStart_eq hkeySeam.le, ok_bind, Option.bind_some,
            classModifiers_eq hs1 hs2 hkeySeam, memberRanges_eq hinside hcloseSeam.1.le,
            hmembers, range_eq hstart, range_eq hwhole]
          rw [← hlayouts]
          refine ⟨_, rfl, .some ⟨rfl, ?_⟩⟩
          simp [ClassLayout.read, Range.checked, hstart, hwhole, hnameRead, htypeRead, hbases,
            hreads]

end

/-- Reads the classes that are declared at some keywords. -/
def classes (s : Source) : List Nat → Guarded (List (ClassLayout × ClassNode))
  | [] => return []
  | keyword :: keywords => do
    match ← classAt s keyword with
    | none => classes s keywords
    | some found => return found :: (← classes s keywords)

/-- An item of a list. -/
def item {α : Type} (as : List α) (index : Nat) : Guarded α :=
  match as[index]? with
  | some a => .ok a
  | none => .error (.outside index)

/-- Adds to each class the number of classes around it. -/
def nest (found : List (ClassLayout × ClassNode)) : Guarded (List ParsedClass) :=
  (List.range found.length).mapM fun index => do
    let (layout, node) ← item found index
    return { node, layout, nesting := layout.nesting (found.map Prod.fst) }

/-- Reads every class that a text declares. -/
def parse (text : Text) : Guarded SourceFile := do
  let s : Source := { text, masked := ← mask text }
  let keywords ← wordPositions "class".toList s.masked 0
  let classes ← nest (← classes s keywords)
  return { classes }

theorem classes_spec {s : Source} (hs : s.Sound) {keywords : List Nat}
    (h : ∀ k ∈ keywords, k ∈ Code.wordPositions "class".toList s.masked.cells) :
    ∃ found, classes s keywords = .ok found ∧
      found.map Prod.fst = keywords.filterMap (Code.classAt? s.masked.cells) ∧
      ∀ p ∈ found, ClassLayout.read s p.1 = .ok p.2 := by
  induction keywords with
  | nil => exact ⟨[], rfl, rfl, by simp⟩
  | cons keyword keywords ih =>
    obtain ⟨found, hfound, hlayouts, hreads⟩ := ih fun k hk => h k (List.mem_cons_of_mem _ hk)
    obtain ⟨o, ho, hclass⟩ := classAt_spec hs (h keyword List.mem_cons_self)
    rw [classes, ho, ok_bind, List.filterMap_cons]
    generalize Code.classAt? s.masked.cells keyword = first at hclass
    cases hclass with
    | none => exact ⟨found, hfound, hlayouts, hreads⟩
    | @some layout p hp =>
      refine ⟨p :: found, ?_, by rw [List.map_cons, hp.1, hlayouts], ?_⟩
      · simp only [hfound]
        rfl
      · exact List.forall_mem_cons.mpr ⟨by rw [hp.1, hp.2], hreads⟩

theorem nest_eq (found : List (ClassLayout × ClassNode)) :
    nest found = .ok (found.map fun p =>
      { node := p.2, layout := p.1, nesting := p.1.nesting (found.map Prod.fst) }) := by
  rw [nest, mapM_eq_ok_iff, List.forall₂_iff_get]
  refine ⟨by simp, fun i hi _ => ?_⟩
  have hi : i < found.length := by simpa using hi
  simp [item, hi]

/-- Whatever the text, no step of its reading breaches a guard: every cell that is fetched and every
byte that is overwritten is there, no difference is negative, every text is cut between characters,
every range is in order, and every loop gets on. What is read is what the unguarded reading
answers. -/
theorem parse_keeps_guards (text : Text) :
    ∃ file, parse text = .ok file ∧ SourceFile.parse text = .ok file := by
  have hs := Source.sound_ofText text
  have hword : ("class".toList : Code) ≠ [] ∧ ∀ c ∈ "class".toList, c.utf8Size = 1 := by decide
  obtain ⟨found, hfound, hlayouts, hreads⟩ := classes_spec hs fun _ hk => hk
  refine ⟨⟨found.map fun p =>
    { node := p.2, layout := p.1, nesting := p.1.nesting (found.map Prod.fst) }⟩, ?_,
    SourceFile.parse_eq_ok_iff.mpr ?_⟩
  · rw [Source.ofText] at hfound
    simp only [parse, mask_eq, wordPositions_eq hword.1 hword.2, ok_bind, hfound, nest_eq]
    rfl
  · have hclasses : Code.classLayouts text.mask.cells = found.map Prod.fst := hlayouts.symm
    rw [hclasses]
    simp only [List.forall₂_map_left_iff, List.forall₂_map_right_iff, List.forall₂_same]
    exact fun p hp => ⟨hreads p hp, trivial, trivial⟩

end ClassRefactor.Guarded
