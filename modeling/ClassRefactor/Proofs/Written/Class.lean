import ClassRefactor.Proofs.Source.File
import ClassRefactor.Proofs.Written.Member

/-!
# Reading undoes writing

A plain class is read back from the text that it is written as, whatever blanks the style puts
between its parts.
-/

namespace ClassRefactor

namespace Segment

theorem Spaced.blanks {ms : List Code} {t b : Code} (h : Spaced ms t)
    (hb : ∀ c ∈ b, isLayoutBlank c = true) : Spaced ms (b ++ t) := by
  have hboth : ∀ {b' : Code}, (∀ c ∈ b', isLayoutBlank c = true) →
      ∀ c ∈ b ++ b', isLayoutBlank c = true :=
    fun hb' c hc => (List.mem_append.mp hc).elim (hb c) (hb' c)
  cases h with
  | nil hb' => exact .nil (hboth hb')
  | @cons b' m t ms hb' h =>
    rw [List.append_assoc, ← List.append_assoc, ← List.append_assoc]
    exact .cons (hboth hb') h

/-- Members close the braces that they open. -/
theorem Spaced.closeFrom_brace {ms : List Code} {t : Code} (h : Spaced ms t)
    (hms : ∀ m ∈ ms, MemberText m) (depth : Nat) (rest : Code) :
    Code.closeFrom '{' '}' depth (t ++ rest) =
      (Code.closeFrom '{' '}' depth rest).map (t.length + ·) := by
  have hblank : ∀ {b : Code}, (∀ c ∈ b, isLayoutBlank c = true) → '{' ∉ b ∧ '}' ∉ b :=
    fun hb => ⟨fun hmem => absurd (hb _ hmem) (by decide),
      fun hmem => absurd (hb _ hmem) (by decide)⟩
  induction h with
  | nil hb => exact Code.closeFrom_of_not_mem (hblank hb).1 (hblank hb).2 depth rest
  | @cons b m t ms hb h ih =>
    rw [List.append_assoc, List.append_assoc,
      Code.closeFrom_of_not_mem (hblank hb).1 (hblank hb).2,
      (hms m List.mem_cons_self).closeFrom_brace, ih fun n hn => hms n (List.mem_cons_of_mem _ hn)]
    simp only [Option.map_map, List.length_append]
    congr 1
    funext n
    simp only [Function.comp_apply]
    omega

/-- The brace before members is closed by the one after them. -/
theorem Spaced.matchingClose?_brace {ms : List Code} {body : Code} (h : Spaced ms body)
    (hms : ∀ m ∈ ms, MemberText m) {t : Code} {opening : Nat}
    (ht : t.drop opening = '{' :: (body ++ ['}'])) :
    Code.matchingClose? '{' '}' t opening = some (opening + 1 + body.length) := by
  have hclose : Code.closeFrom '{' '}' 0 (body ++ ['}']) = some body.length := by
    rw [h.closeFrom_brace hms]
    rfl
  rw [Code.matchingClose?, ht]
  simp [hclose]

end Segment

namespace Code

theorem reachBack_all {l : Code} (h : ∀ c ∈ l, Segment.isFlat c = true ∧ c ≠ ';') :
    reachBack 0 l = l.length := by
  induction l with
  | nil => rfl
  | cons c l ih =>
    have hc := h c List.mem_cons_self
    simp only [Segment.isFlat, Bool.and_eq_true, bne_iff_ne] at hc
    rw [reachBack, ih fun d hd => h d (List.mem_cons_of_mem _ hd)]
    simp [hc]

/-- Blanks are skipped up to what follows them. -/
theorem skipBlanks_run {t b rest : Code} {k : Nat} {c : Char} (ht : t.drop k = b ++ c :: rest)
    (hb : ∀ d ∈ b, isLayoutBlank d = true) (hc : isLayoutBlank c = false) :
    t.skipBlanks k t.length = k + b.length := by
  rw [skipBlanks, window_length, ht, leading_run hb hc]

/-- A word at the front is collected. -/
theorem wordsFrom_ident {w word : Code} (hw : ∀ c ∈ w, isIdentCell c = true) (rest : Code) :
    wordsFrom word 0 (w ++ ' ' :: rest) =
      if (w.reverse ++ word).isEmpty then wordsFrom [] 0 rest
      else (w.reverse ++ word).reverse :: wordsFrom [] 0 rest := by
  induction w generalizing word with
  | nil =>
    have hspace : isIdentCell ' ' = false := by decide
    simp [wordsFrom, hspace]
  | cons c w ih =>
    rw [List.cons_append, wordsFrom, if_pos (by simp [hw c List.mem_cons_self]),
      ih fun d hd => hw d (List.mem_cons_of_mem _ hd)]
    simp

/-- Written class modifiers are read back. -/
theorem wordsFrom_renderModifiers {ms : List String} (hms : ∀ m ∈ ms, m ∈ typeModifiers) :
    (wordsFrom [] 0 (renderModifiers ms).toList).filterMap (known? typeModifiers) = ms := by
  induction ms with
  | nil => rfl
  | cons m ms ih =>
    have hm := hms m List.mem_cons_self
    obtain ⟨hne, hident⟩ := known_typeModifiers.ident m hm
    rw [renderModifiers_cons, wordsFrom_ident hident, if_neg (by simpa using hne)]
    simp [known_typeModifiers.found m hm, ih fun n hn => hms n (List.mem_cons_of_mem _ hn)]

/-- Written class modifiers begin with no blank. -/
theorem head_renderModifiers {ms : List String} (hms : ∀ m ∈ ms, m ∈ typeModifiers) :
    ∀ c, (renderModifiers ms).toList.head? = some c → isLayoutBlank c = false := by
  intro c hc
  cases ms with
  | nil => simp [renderModifiers, concat] at hc
  | cons m ms =>
    obtain ⟨hne, hident⟩ := known_typeModifiers.ident m (hms m List.mem_cons_self)
    rw [renderModifiers_cons, List.head?_append, List.head?_eq_some_head hne] at hc
    rw [← Option.some.inj hc]
    exact isLayoutBlank_eq_false_of_isIdentCell (hident _ (List.head_mem hne))

end Code

/-- The members of a class, each as it is written, make up its body. -/
theorem spaced_members {style : Style} (hstyle : style.BlanksOnly) {classIndent : String}
    (hindent : ∀ c ∈ classIndent.toList, isLayoutBlank c = true) {ms : List Member}
    {xs : List Code}
    (h : List.Forall₂ (fun m x => (Member.render style m).toList = style.indent.toList ++ x)
      ms xs) :
    Segment.Spaced xs ((joinWith style.newline (ms.map fun m => style.newline ++ m.render style) ++
      style.newline ++ classIndent).toList) := by
  have hlead : ∀ c ∈ style.newline.toList ++ style.indent.toList, isLayoutBlank c = true :=
    fun c hc => (List.mem_append.mp hc).elim (hstyle.newline c) (hstyle.indent c)
  have hclose : ∀ c ∈ (style.newline ++ classIndent).toList, isLayoutBlank c = true := by
    intro c hc
    rw [String.toList_append] at hc
    exact (List.mem_append.mp hc).elim (hstyle.newline c) (hindent c)
  induction h with
  | nil => exact .nil (by simpa [joinWith] using hclose)
  | @cons m x ms xs hm hms ih =>
    cases ms with
    | nil =>
      cases hms
      have := Segment.Spaced.cons (m := x) hlead (.nil hclose)
      simpa [joinWith, String.toList_append, hm] using this
    | cons m' ms =>
      have := Segment.Spaced.cons (m := x) hlead (ih.blanks hstyle.newline)
      simpa [joinWith, String.toList_append, hm] using this

/-- The members of a written class are found in its body. -/
theorem memberRanges_written {xs : List Code} {body code : Code} {pos : Nat}
    (hspaced : Segment.Spaced xs body) (hxs : ∀ x ∈ xs, Segment.MemberText x)
    (hbody : code.Shows pos body) :
    List.Forall₂ code.Stands (code.memberRanges pos (pos + body.length)) xs := by
  have hhead : ∀ x ∈ xs, ∃ c, x.head? = some c ∧ isLayoutBlank c = false ∧ c ≠ '=' := by
    intro x hx
    obtain ⟨c, hc, hident⟩ := (hxs x hx).head
    refine ⟨c, hc, isLayoutBlank_eq_false_of_isIdentCell hident, ?_⟩
    rintro rfl
    exact absurd hident (by decide)
  have hstands := Segment.rangesFrom_spaced hspaced hhead
    (fun x hx => (hxs x hx).cut) hbody.window_self
  rw [Code.memberRanges, Segment.ranges, hbody.window_self, List.filter_eq_self.mpr]
  · exact hstands
  · intro r hr
    obtain ⟨x, hx, hstand⟩ := exists_of_forall₂_left hstands hr
    have hlong := (hxs x hx).length_lt
    have hlength : r.length = x.length := by rw [Range.length, hstand.stop]; omega
    have hne : (r.length == 1) = false := beq_eq_false_iff_ne.mpr (by omega)
    rw [hne]
    rfl

section

variable {indent : Code} (hindent : ∀ c ∈ indent, isLayoutBlank c = true)
  {modifiers : List String} (hms : ∀ m ∈ modifiers, m ∈ typeModifiers) {name : String}
  (hname : PlainName name) {b : Code} (hb : ∀ c ∈ b, isLayoutBlank c = true) {xs : List Code}
  {body : Code} (hspaced : Segment.Spaced xs body) (hxs : ∀ x ∈ xs, Segment.MemberText x)
  {t : Code}
  (ht : t = indent ++ (renderModifiers modifiers).toList ++ ("class".toList ++
    (' ' :: (name.toList ++ (b ++ '{' :: (body ++ ['}']))))))
include ht

section

include hindent hms

/-- A written class begins with its modifiers. -/
theorem declarationStart_written :
    t.declarationStart (indent ++ (renderModifiers modifiers).toList).length = indent.length ∧
      t.classModifiers indent.length (indent ++ (renderModifiers modifiers).toList).length =
        modifiers := by
  have hwords := Code.wordsFrom_renderModifiers hms
  have hflat : ∀ c ∈ indent ++ (renderModifiers modifiers).toList,
      Segment.isFlat c = true ∧ c ≠ ';' := by
    intro c hc
    rcases List.mem_append.mp hc with hc | hc
    · exact Segment.isFlat_of_isLayoutBlank (hindent c hc)
    · exact Segment.isFlat_of_isInert (Code.known_typeModifiers.isInert hms c hc)
  have hhead := Code.head_renderModifiers hms
  generalize (renderModifiers modifiers).toList = mods at ht hwords hflat hhead
  have hfront : t.take (indent ++ mods).length = indent ++ mods := by
    rw [ht, List.take_left]
  have hshows : t.Shows indent.length mods := by
    rw [ht]
    exact Code.shows_append _ _ _
  constructor
  · have hreach : Code.reachBack 0 (t.take (indent ++ mods).length).reverse =
        (indent ++ mods).length := by
      rw [hfront, Code.reachBack_all fun c hc => hflat c (List.mem_reverse.mp hc),
        List.length_reverse]
    have hwindow : t.window 0 (indent ++ mods).length = indent ++ mods := by
      rw [Code.window, List.drop_zero, Nat.sub_zero, hfront]
    rw [Code.declarationStart, hreach, Nat.sub_self, Code.skipBlanks, hwindow, Nat.zero_add]
    cases mods with
    | nil =>
      rw [List.append_nil, Code.leading, List.takeWhile_eq_self_iff.mpr hindent]
    | cons c mods => exact Code.leading_run hindent (hhead c rfl)
  · rw [Code.classModifiers, List.length_append, hshows.window_self, hwords]

end

section

include hname hb

/-- The name of a written class stands behind its keyword, and the brace of its body behind the
name. -/
theorem header_written {k : Nat} (hk : (indent ++ (renderModifiers modifiers).toList).length = k) :
    t.skipBlanks (k + "class".length) t.length = k + 6 ∧
      t.identEnd (k + 6) t.length = k + 6 + name.toList.length ∧
      t.Shows (k + 6) name.toList ∧
      t.skipBlanks (k + 6 + name.toList.length) t.length = k + 6 + name.toList.length + b.length ∧
      t.drop (k + 6 + name.toList.length + b.length) = '{' :: (body ++ ['}']) := by
  have hkeyword : t.drop k = "class".toList ++
      (' ' :: (name.toList ++ (b ++ '{' :: (body ++ ['}'])))) := by
    rw [ht, ← hk, List.drop_left]
  have hspace : t.drop (k + 5) = [' '] ++ (name.toList ++ (b ++ '{' :: (body ++ ['}']))) := by
    rw [← List.drop_drop, hkeyword]
    rfl
  have hnamed : t.drop (k + 6) = name.toList ++ (b ++ '{' :: (body ++ ['}'])) := by
    rw [show k + 6 = k + 5 + 1 from rfl, ← List.drop_drop, hspace]
    rfl
  have htail : t.drop (k + 6 + name.toList.length) = b ++ '{' :: (body ++ ['}']) := by
    rw [← List.drop_drop, hnamed, List.drop_left]
  refine ⟨?_, ?_, ?_, ?_, ?_⟩
  · obtain ⟨c, rest, hs, -⟩ := hname.head
    have hblank := isLayoutBlank_eq_false_of_isIdentCell (hname.ident c (by simp [hs]))
    rw [show "class".length = 5 from rfl]
    rw [hs] at hspace
    exact Code.skipBlanks_run hspace (by decide) hblank
  · have hend : ∃ c rest, b ++ '{' :: (body ++ ['}']) = c :: rest ∧ isIdentCell c = false := by
      cases b with
      | nil => exact ⟨'{', _, rfl, by decide⟩
      | cons c b =>
        exact ⟨c, _, rfl, Segment.isIdentCell_of_isLayoutBlank (hb c List.mem_cons_self)⟩
    obtain ⟨c, rest, hrest, hident⟩ := hend
    rw [Code.identEnd, Code.window_length, hnamed, hrest, Code.leading_run hname.ident hident]
  · rw [Code.Shows, hnamed]
    exact List.prefix_append _ _
  · exact Code.skipBlanks_run htail hb (by decide)
  · rw [← List.drop_drop, htail, List.drop_left]

end

include hindent hms hname hb hspaced hxs

/-- The keyword of a written class stands in it once. -/
theorem wordPositions_class :
    Code.wordPositions "class".toList t =
      [(indent ++ (renderModifiers modifiers).toList).length] := by
  have hnot : ∀ {b : Code}, (∀ c ∈ b, isLayoutBlank c = true) → Code.Undeclared b :=
    fun hb => Code.undeclared_of_not_ident fun c hc =>
      Segment.isIdentCell_of_isLayoutBlank (hb c hc)
  have hfront : Code.Undeclared (indent ++ (renderModifiers modifiers).toList) := by
    refine (hnot hindent).append (.inl fun c hc =>
      Segment.isIdentCell_of_isLayoutBlank (hindent c (List.mem_of_getLast? hc))) ?_
    simpa using Code.known_typeModifiers.undeclared hms (by decide) Code.undeclared_nil
  have hbody : Code.Undeclared body := hspaced.undeclared fun x hx => by
    refine ⟨(hxs x hx).undeclared, ?_⟩
    rcases (hxs x hx).last with hlast | hlast
    · exact ⟨_, hlast, by decide⟩
    · exact ⟨_, hlast, by decide⟩
  have hrest : Code.Undeclared (' ' :: (name.toList ++ (b ++ '{' :: (body ++ ['}'])))) := by
    refine Code.undeclared_nil.split (by decide) ?_
    rw [← List.append_assoc]
    refine Code.Undeclared.split (by decide) ?_ (hbody.split (by decide) Code.undeclared_nil)
    refine hname.undeclared.append (.inr fun c hc => ?_) (hnot hb)
    exact Segment.isIdentCell_of_isLayoutBlank (hb c (List.mem_of_mem_head? hc))
  have hapart : Code.Apart (indent ++ (renderModifiers modifiers).toList) ("class".toList ++
      (' ' :: (name.toList ++ (b ++ '{' :: (body ++ ['}']))))) := by
    refine .inl fun c hc => ?_
    rw [List.getLast?_append] at hc
    cases hlast : (renderModifiers modifiers).toList.getLast? with
    | none =>
      rw [hlast, Option.none_or] at hc
      exact Segment.isIdentCell_of_isLayoutBlank (hindent c (List.mem_of_getLast? hc))
    | some d =>
      rw [hlast, Option.some_or] at hc
      rw [← Option.some.inj hc, Code.last_renderModifiers hlast]
      decide
  have hword : ∀ c ∈ "class".toList, isIdentCell c = true := by decide
  rw [ht, Code.wordPositions_append (by decide) hword hapart, hfront.wordPositions_class,
    Code.wordPositions_append (by decide) hword (Code.apart_of_head rfl (by decide)),
    hrest.wordPositions_class]
  have hself : Code.wordPositions "class".toList "class".toList = [0] := by decide
  rw [hself]
  rfl

/-- The layout of a written class. -/
theorem classAt?_written :
    ∃ layout, t.classAt? (indent ++ (renderModifiers modifiers).toList).length = some layout ∧
      layout.range.start ≤ layout.range.stop ∧ layout.header.start ≤ layout.header.stop ∧
      layout.modifiers = modifiers ∧ layout.typeParams = none ∧
      t.Stands layout.name name.toList ∧ layout.tail.start = layout.tail.stop ∧
      layout.tail.stop ≤ t.length ∧
      ∃ ranges, List.Forall₂ t.Stands ranges xs ∧
        layout.members = ranges.map (t.memberLayout name.toList) := by
  obtain ⟨hstart, hclass⟩ := declarationStart_written hindent hms ht
  have hlead : indent.length ≤ (indent ++ (renderModifiers modifiers).toList).length := by
    rw [List.length_append]
    exact Nat.le_add_right ..
  generalize hk : (indent ++ (renderModifiers modifiers).toList).length = k at *
  obtain ⟨hnameStart, hnameStop, hshown, hnext, hbrace⟩ :=
    header_written hname hb ht hk
  generalize hopen : k + 6 + name.toList.length + b.length = opening at *
  have hlength : t.length = opening + 1 + body.length + 1 := by
    have hdropped := congrArg List.length hbrace
    simp only [List.length_drop, List.length_cons, List.length_append, List.length_nil]
      at hdropped
    omega
  have hcell : t[opening]? = some '{' := by
    rw [← List.head?_drop, hbrace]
    rfl
  have hclose := hspaced.matchingClose?_brace hxs hbrace
  have hinside : t.Shows (opening + 1) body := by
    rw [Code.Shows, ← List.drop_drop, hbrace]
    exact List.prefix_append _ _
  have hwhere : name.toList ≠ "where".toList := fun heq =>
    hname.free (by rw [String.toList_inj.mp heq]; decide)
  have hbody : Code.classBodyFrom 0 opening (t.drop opening) = some opening := by
    rw [hbrace]
    rfl
  have hfound : t.classAt? k = some
      { range := ⟨indent.length, opening + 1 + body.length + 1⟩
        header := ⟨indent.length, opening⟩, modifiers
        name := ⟨k + 6, k + 6 + name.toList.length⟩, typeParams := none
        tail := ⟨opening, opening⟩, opening, closing := opening + 1 + body.length
        members := (t.memberRanges (opening + 1) (opening + 1 + body.length)).map
          (t.memberLayout name.toList) } := by
    have hangle : (some '{' == some '<') = false := by decide
    simpa [Code.classAt?, hnameStart, hnameStop, hshown.window_self, hnext, Code.typeParams?,
      hcell, hangle, hname.ne_nil, hbody, hclose, hstart, hclass] using hwhere
  refine ⟨_, hfound, ?_, ?_, rfl, rfl, ⟨hshown, rfl⟩, rfl, ?_, _,
    memberRanges_written hspaced hxs hinside, rfl⟩
  · simp only
    omega
  · simp only
    omega
  · simp only
    omega

end

/-- The members of a class are read from where they stand. -/
theorem members_read {t className : Code} (ht : Printed t) {ranges : List Range}
    {xs : List Code} {ms : List Member} (hxs : ∀ x ∈ xs, Segment.MemberText x)
    (hranges : List.Forall₂ t.Stands ranges xs)
    (hread : List.Forall₂ (fun m (x : Code) =>
      (x.memberLayout className ⟨0, x.length⟩).read ⟨x, x⟩ = .ok m) ms xs) :
    (ranges.map (t.memberLayout className)).mapM (MemberLayout.read ⟨t, t⟩) = .ok ms := by
  rw [mapM_eq_ok_iff, List.forall₂_map_left_iff]
  induction hranges generalizing ms with
  | nil =>
    cases hread
    exact .nil
  | @cons r x ranges xs hr _ ih =>
    cases hread with
    | cons hm hread =>
      refine .cons ?_ (ih (fun y hy => hxs y (List.mem_cons_of_mem _ hy)) hread)
      have hx := hxs x List.mem_cons_self
      have hsealed : t.Sealed (r.start + x.length) := by
        rw [← hr.stop]
        rcases hx.last with hlast | hlast
        · exact hr.sealed ⟨_, hlast, by decide⟩
        · exact hr.sealed ⟨_, hlast, by decide⟩
      have hlayout := hr.shows.memberLayout hsealed className
      rw [← hr.stop] at hlayout
      have hle := hr.shows.length_le (List.ne_nil_of_length_pos (by have := hx.length_lt; omega))
      rw [show r = ⟨r.start, r.stop⟩ from rfl, hlayout]
      exact (ht.within hr.shows (by omega)).member _ _ hm

/-- A plain class is read back from the text that it is written as. -/
theorem ClassNode.parse_undoes_render {c : ClassNode} (h : c.Plain) {style : Style}
    (hstyle : style.BlanksOnly) {classIndent : String}
    (hindent : ∀ d ∈ classIndent.toList, isLayoutBlank d = true) :
    ∃ d : ParsedClass, SourceFile.parse (c.render style classIndent).toList = .ok ⟨[d]⟩ ∧
      d.node = c := by
  obtain ⟨xs, hwritten⟩ := exists_forall₂ fun m hm => (h.members m hm).written hstyle h.name
  have hxs : ∀ x ∈ xs, Segment.MemberText x ∧ Printed x := fun x hx =>
    let ⟨_, _, hm⟩ := exists_of_forall₂_right hwritten hx
    ⟨hm.2.1, hm.2.2.1⟩
  have hmembers := fun x hx => (hxs x hx).1
  have hspaced := spaced_members hstyle hindent (hwritten.imp fun _ _ hm => hm.1)
  obtain ⟨b, hb, hopen⟩ := hstyle.openBrace hindent
  generalize hbody : (joinWith style.newline (c.members.map fun m => style.newline ++
    m.render style) ++ style.newline ++ classIndent).toList = body at hspaced
  generalize ht : (c.render style classIndent).toList = t
  have hrender : t = classIndent.toList ++ (renderModifiers c.modifiers).toList ++
      ("class".toList ++ (' ' :: (c.name.toList ++ (b ++ '{' :: (body ++ ['}']))))) := by
    rw [← ht, ← hbody]
    simp [ClassNode.render, h.typeParams, h.bases, hopen, String.toList_append]
  have hprinted : Printed t := by
    have hbodyPrinted : Printed body := hspaced.printed fun x hx => (hxs x hx).2
    have hclass : Printed "class".toList := by simp [Printed, isPrinted, isQuiet]
    have hend : Printed ['}'] := by simp [Printed, isPrinted, isQuiet]
    rw [hrender]
    refine ((printed_blanks hindent).append
      (printed_renderModifiers (by decide) h.modifiers)).append (hclass.append ?_)
    refine (h.name.printed.append ((printed_blanks hb).append ?_)).cons (by decide)
    exact (hbodyPrinted.append hend).cons (by decide)
  obtain ⟨layout, hlayout, hrange, hheader, hmodifiers, htypeParams, hname, htail, htailLe, ranges,
    hranges, hlaid⟩ := classAt?_written hindent h.modifiers h.name hb hspaced hmembers hrender
  have hread : layout.read ⟨t, t⟩ = .ok c := by
    have hle := hname.shows.length_le h.name.ne_nil
    have hnameRead := hprinted.read hname.shows (by omega)
    have htailRead : Text.read t ⟨layout.tail.start, layout.tail.start + [].length⟩ = .ok [] :=
      hprinted.read List.nil_prefix (by omega)
    have hread := members_read hprinted hmembers hranges
      (hwritten.imp fun _ _ hm => hm.2.2.2)
    rw [← hname.stop] at hnameRead
    rw [List.length_nil, Nat.add_zero] at htailRead
    obtain ⟨name, typeParams, modifiers, bases, members⟩ := c
    have htypeNone := h.typeParams
    have hbases := h.bases
    simp only at htypeNone hbases
    subst htypeNone hbases
    have hclause : Source.clause ⟨t, t⟩ layout.tail = .ok none := by
      rw [show layout.tail = ⟨layout.tail.start, layout.tail.stop⟩ from rfl, ← htail]
      simp [Source.clause, htailRead, Text.trim, Text.trimStart, Text.trimEnd, bind, Except.bind,
        pure, Except.pure]
    simp [ClassLayout.read, Range.checked, hrange, hheader, Source.name, hnameRead, htypeParams,
      Source.optional, hclause, hlaid, hread, hmodifiers, bind, Except.bind, pure, Except.pure]
  have hlayouts : Code.classLayouts t = [layout] := by
    rw [Code.classLayouts,
      wordPositions_class hindent h.modifiers h.name hb hspaced hmembers hrender,
      List.filterMap_cons_some hlayout]
    rfl
  refine ⟨⟨c, layout, layout.nesting [layout]⟩, SourceFile.parse_eq_ok_iff.mpr ?_, rfl⟩
  rw [hprinted.ofText, hprinted.mask, hprinted.cells, hlayouts]
  exact .cons ⟨hread, rfl, rfl⟩ .nil

/-- A class with a field of two variables, a constructor and a method without a body. -/
def storeClass : ClassNode :=
  { name := "Store", modifiers := ["public", "sealed"]
    members := [
      .field { modifiers := ["private", "readonly"]
               type := ⟨"Map", [⟨"Key", [], ""⟩, ⟨"List", [⟨"Item", [], ""⟩], ""⟩], ""⟩
               declarators := [{ name := "_map" }, { name := "_next" }] },
      .constructor { name := "Store", modifiers := ["public"]
                     parameters := [{ modifiers := ["in"], type := ⟨"Source", [], ""⟩
                                      name := "source" }]
                     body := .block [.assignment "_map" "source"] },
      .method { name := "Load", modifiers := ["protected", "abstract"]
                returnType := ⟨"Task", [⟨"Item", [], ""⟩], ""⟩
                parameters := [{ type := ⟨"Key", [], ""⟩, name := "key" },
                  { modifiers := ["out"], type := ⟨"Item", [], ""⟩, name := "item" }]
                body := .absent }] }

theorem plain_storeClass : storeClass.Plain := by
  have hbare : ∀ name, PlainName name → TypeRef.Plain ⟨name, [], ""⟩ :=
    fun name h => .mk h (by simp)
  have hgeneric : ∀ name arg, PlainName name → TypeRef.Plain arg →
      TypeRef.Plain ⟨name, [arg], ""⟩ := fun name arg h harg => .mk h (by simpa using harg)
  refine ⟨by decide, rfl, by decide, rfl, ?_⟩
  simp only [storeClass, List.forall_mem_cons]
  refine ⟨.field ⟨by decide, .mk (by decide) ?_, by decide, by decide⟩,
    .constructor ⟨rfl, by decide, ?_, rfl, .block ?_⟩,
    .method ⟨by decide, rfl, by decide, hgeneric _ _ (by decide) (hbare _ (by decide)), ?_, rfl,
      .absent⟩, by simp⟩
  · simp only [List.forall_mem_cons]
    exact ⟨hbare _ (by decide), hgeneric _ _ (by decide) (hbare _ (by decide)), by simp⟩
  · simp only [List.forall_mem_cons]
    exact ⟨⟨by decide, hbare _ (by decide), by decide, rfl⟩, by simp⟩
  · simp only [List.forall_mem_cons]
    exact ⟨.assignment (by decide) (by decide), by simp⟩
  · simp only [List.forall_mem_cons]
    exact ⟨⟨by decide, hbare _ (by decide), by decide, rfl⟩,
      ⟨by decide, hbare _ (by decide), by decide, rfl⟩, by simp⟩

/-- The class is read back from its text with tabs and carriage returns. -/
theorem ClassNode.parse_undoes_render_storeClass :
    storeClass.Plain ∧ ∃ d : ParsedClass,
      SourceFile.parse (storeClass.render
        { indent := "\t\t", indentUnit := "\t", newline := "\r\n", braceOnNewLine := false }
        "\t").toList = .ok ⟨[d]⟩ ∧ d.node = storeClass :=
  ⟨plain_storeClass,
    parse_undoes_render plain_storeClass ⟨by decide, by decide, by decide⟩ (by decide)⟩

end ClassRefactor
