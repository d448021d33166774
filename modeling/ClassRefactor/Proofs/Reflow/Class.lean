import ClassRefactor.Proofs.Growth.Splice
import ClassRefactor.Proofs.Reflow.Header

/-!
# A class on one line laid out anew

A class on one line is laid out over several when it is given a constructor. Behind its opening
brace and behind each member nothing is open, so that what follows may move to a line of its own:
first the constructor is put before the closing brace, then the pieces of the body are moved one by
one, the last first, and at the end the opening brace.
-/

namespace ClassRefactor

/-- Where a member has ended and nothing assigns behind it, the cut of the code before is clear. -/
theorem Code.Settled.memberCut_eq {code : Code} {start stop : Nat}
    (h : code.Settled code.afterMemberBlock start stop) (hle : start ≤ stop)
    (hstop : stop ≤ code.length) {r : Range}
    (hr : r ∈ Segment.ranges code code.afterMemberBlock start stop)
    (hrest : Code.Unassigned (code.drop r.stop)) :
    (Code.memberCut (code.take r.stop) start).2 = {} := by
  obtain ⟨front, back, hwindow, hend, hclear⟩ := Segment.clear_of_mem_endedFrom (h.mem_endedFrom hr)
  have hlen := congrArg List.length hwindow
  rw [Code.length_window_of_le hstop, List.length_append] at hlen
  have hfront : (code.take r.stop).drop start = front := by
    rw [hend, List.drop_take, Nat.add_sub_cancel_left]
    rw [Code.window] at hwindow
    have := congrArg (List.take front.length) hwindow
    rw [List.take_take, List.take_left, Nat.min_eq_left (by omega)] at this
    exact this
  have hcut := @Code.endedFrom_memberCut (code.take r.stop) (code.drop r.stop) start stop hrest
    (by rw [List.length_take]; omega) (by rw [List.length_take]; omega)
  rw [List.take_append_drop, hfront] at hcut
  rw [← hcut, hclear]

/-- A place in a class body, behind the opening brace or behind a member, where nothing is open and
the code that follows may begin a line. -/
structure Break (text : Text) (opening place : Nat) : Prop where
  after : opening < place
  boundary : text.isBoundary place = true
  ends : ∃ e, text.mask.cells[place - 1]? = some e ∧ Code.isEnd e = true
  clear : (Code.memberCut (text.mask.cells.take place) (opening + 1)).2 = {}
  lined : Code.Lined (text.mask.cells.drop place)

/-- A break of a text that falls into two parts there. -/
structure Source.BreakAt (u w : Source) (opening : Nat) : Prop where
  after : opening < u.masked.size
  ends : ∃ e, u.masked.cells.getLast? = some e ∧ Code.isEnd e = true ∧ u.text.getLast? = some e
  clear : (Code.memberCut u.masked.cells (opening + 1)).2 = {}
  lined : Code.Lined w.masked.cells

theorem Break.at {text : Text} {opening place : Nat} (h : Break text opening place) {u w : Source}
    (hsource : Source.ofText text = u ++ w) (hu : u.Even) (hsize : u.masked.size = place) :
    u.BreakAt w opening := by
  have hmask : text.mask.cells = u.masked.cells ++ w.masked.cells := by
    rw [← Text.cells_append]
    exact congrArg (fun s => Text.cells (Source.masked s)) hsource
  have htext : Text.cells text = Text.cells u.text ++ Text.cells w.text := by
    rw [← Text.cells_append]
    exact congrArg (fun s => Text.cells (Source.text s)) hsource
  have hafter := h.after
  obtain ⟨e, he, hend⟩ := h.ends
  have hlast : ∀ {l : Text} {r : Code}, l.size = place →
      (Text.cells l ++ r)[place - 1]? = l.getLast? := by
    intro l r hl
    rw [List.getElem?_append_left (by rw [Text.length_cells]; omega), ← hl, ← Text.length_cells,
      ← List.getLast?_eq_getElem?, Text.getLast?_cells]
  have hcell := Text.getElem?_cells_of_mask he
    (by rintro rfl; exact absurd hend (by decide)) (by rintro rfl; exact absurd hend (by decide))
  have hclear := h.clear
  have hlined := h.lined
  rw [hmask, hlast hsize] at he
  rw [htext, hlast (Eq.trans hu hsize)] at hcell
  rw [hmask, List.take_left' (by rw [Text.length_cells, hsize])] at hclear
  rw [hmask, List.drop_left' (by rw [Text.length_cells, hsize])] at hlined
  exact ⟨by omega, ⟨e, by rw [Text.getLast?_cells, he], hend, hcell⟩, hclear, hlined⟩

namespace ParsedClass

/-- Where the pieces of a class body begin. -/
def breaks (c : ParsedClass) : List Nat :=
  (c.layout.opening + 1) :: c.layout.members.map (·.range.stop)

/-- A class that may be laid out anew: the white space before its opening brace shows as blanks, and
each piece of its body may begin a line. -/
structure Reflowable (c : ParsedClass) (text : Text) : Prop where
  header : ∀ d ∈ Code.window text.mask.cells (c.layout.header.start +
    (text.slice c.layout.header.start c.layout.opening).trimEnd.size) c.layout.opening,
      isLayoutBlank d = true
  pieces : ∀ place ∈ c.breaks, Code.Lined (text.mask.cells.drop place)

theorem reflowable_iff (c : ParsedClass) (text : Text) : c.Reflowable text ↔
    (∀ d ∈ Code.window text.mask.cells (c.layout.header.start +
      (text.slice c.layout.header.start c.layout.opening).trimEnd.size) c.layout.opening,
        isLayoutBlank d = true) ∧
      ∀ place ∈ c.breaks, Code.Lined (text.mask.cells.drop place) :=
  ⟨fun h => ⟨h.header, h.pieces⟩, fun h => ⟨h.1, h.2⟩⟩

instance (c : ParsedClass) (text : Text) : Decidable (c.Reflowable text) :=
  decidable_of_iff' _ (c.reflowable_iff text)

variable {text : Text} {c : ParsedClass}

/-- Behind its opening brace and behind each member a class may be broken. -/
theorem break_of_mem_breaks (hcut : c.Cuttable text)
    (hlayout : c.layout ∈ Code.classLayouts text.mask.cells) (hsettled : c.layout.Settled text)
    (h : c.Reflowable text) {place : Nat} (hplace : place ∈ c.breaks) :
    Break text c.layout.opening place := by
  obtain ⟨hlaid, -⟩ := Code.classLayouts_spec hlayout
  have hlined := h.pieces place hplace
  have hinside := (List.getElem?_eq_some_iff.mp hlaid.closes).1
  rcases List.mem_cons.mp hplace with rfl | hmem
  · refine ⟨Nat.lt_succ_self _, hcut.opening.2, ⟨'{', hlaid.opens, by decide⟩, ?_, hlined⟩
    rw [Code.memberCut, List.drop_eq_nil_of_le (by rw [List.length_take]; omega)]
    rfl
  · obtain ⟨m, hm, rfl⟩ := List.mem_map.mp hmem
    have hwithin := hlaid.members.within m.range (List.mem_map_of_mem hm)
    refine ⟨by omega, hcut.members m hm, end_of_settled hlayout hsettled hm, ?_, hlined⟩
    exact Code.Settled.memberCut_eq hsettled hlaid.ordered (Nat.le_of_lt hinside)
      (range_of_mem_members hlayout hm) hlined.unassigned

end ParsedClass

namespace Text

/-- Nothing is trimmed at the end of a text that does not end with white space. -/
theorem trim_eq_trimStart {t : Text} (h : ∀ c ∈ t.getLast?, isWhite c = false) :
    t.trim = t.trimStart := by
  have hsplit := List.takeWhile_append_dropWhile (p := isWhite) (l := t)
  rw [trim, trimStart]
  generalize t.dropWhile isWhite = rest at *
  rcases List.eq_nil_or_concat rest with rfl | ⟨init, c, rfl⟩
  · rfl
  · rw [List.concat_eq_append] at *
    have hlast : t.getLast? = some c := by
      rw [← hsplit, ← List.append_assoc, List.getLast?_concat]
    rw [trimEnd_append_cons (h c hlast)]
    rfl

end Text

/-- A source is cut wherever its text is. -/
theorem Source.exists_cut_text {text : Text} {u w : Source} (h : ofText text = u ++ w) (hu : u.Even)
    {x y : Text} (hxy : u.text = x ++ y) :
    ∃ a b : Source, u = a ++ b ∧ a.Even ∧ b.Even ∧ a.text = x ∧ b.text = y := by
  obtain ⟨hfront, -⟩ := mask_of_parts h hu
  rw [hxy, Scan.mask_append] at hfront
  refine ⟨⟨x, Scan.start.mask x (y ++ w.text)⟩,
    ⟨y, (Scan.start.after x (y ++ w.text)).mask y w.text⟩, ?_, (Scan.size_mask ..).symm,
    (Scan.size_mask ..).symm, rfl, rfl⟩
  obtain ⟨utext, umasked⟩ := u
  exact congrArg₂ Source.mk hxy hfront.symm

theorem Source.slice_parts {text : Text} {a m r : Source} (h : ofText text = a ++ m ++ r)
    (ha : a.Even) (hm : m.Even) : text.slice a.masked.size (a ++ m).masked.size = m.text := by
  have htext : text = a.text ++ m.text ++ r.text := congrArg Source.text h
  have hsize : a.text.size = a.masked.size ∧ m.text.size = m.masked.size := ⟨ha, hm⟩
  rw [htext, masked_append, Text.size_append, ← hsize.1, ← hsize.2, Text.slice_append]

/-- A source is cut at a break, within the part that this lies in. -/
theorem Break.exists_cut {text : Text} {opening place : Nat} (h : Break text opening place)
    {u v r : Source} (hsource : Source.ofText text = u ++ v ++ r) (hu : u.Even) (hv : v.Even)
    (hfrom : u.masked.size ≤ place) (hto : place ≤ (u ++ v).masked.size) :
    ∃ k w : Source, v = k ++ w ∧ k.Even ∧ w.Even ∧ (u ++ k).masked.size = place := by
  have heven : (u ++ v).text.size = (u ++ v).masked.size := hu.append hv
  have hboundary : (u ++ v).text.isBoundary place = true := by
    have htext : text = (u ++ v).text ++ r.text := congrArg Source.text hsource
    exact Text.isBoundary_of_append (htext ▸ h.boundary) (by omega)
  obtain ⟨x, y, hxy, hx⟩ := Text.isBoundary_iff.mp hboundary
  obtain ⟨f, w, hparts, hf, hw, rfl, rfl⟩ := Source.exists_cut_text hsource heven hxy
  have hsize : f.masked.size = place := Eq.trans hf.symm hx
  obtain ⟨k, rfl, rfl, hk⟩ := Source.exists_between hparts hu hf (by omega)
  exact ⟨k, w, rfl, hk, hw, hsize⟩

/-- The line that is left for the comments behind the last member, if there are any. -/
def trailingLine (style : Style) (t : Text) : Text :=
  if t.trim.isEmpty then [] else style.indent.toList ++ t.trim ++ style.newline.toList

namespace SourceFile

/-- A class whose body has been filled before its closing brace, as the file with it is read: `t`
stands there instead of `b`. -/
structure Filled (text : Text) (number i opening : Nat) (node : ClassNode) (p b q : Source)
    (t : Text) : Prop where
  eq : Source.ofText text = p ++ b ++ q
  even : p.Even ∧ q.Even
  nonempty : 0 < t.size
  lined : Code.Lined (Source.plain t ++ q).masked.cells
  source : Source.ofText (p.text ++ t ++ q.text) = p ++ .plain t ++ q
  declares : Declares (p.text ++ t ++ q.text) number i opening (p ++ .plain t).masked.size node

/-- The same class with the pieces behind `u` on lines of their own, which are `z`. -/
structure Relined (style : Style) (number i opening : Nat) (node : ClassNode) (u q : Source)
    (t lines : Text) (z : Source) : Prop where
  even : z.Even
  lined : Code.Lined (z ++ (.plain t ++ q)).masked.cells
  source : Source.ofText (u.text ++ z.text ++ (t ++ q.text)) = u ++ z ++ (.plain t ++ q)
  declares : Declares (u.text ++ z.text ++ (t ++ q.text)) number i opening
    (u ++ z ++ .plain t).masked.size node
  text : z.text ++ style.newline.toList = style.newline.toList ++ lines

variable {text : Text} {style : Style} {number i opening : Nat} {node : ClassNode} {p b q : Source}
  {t : Text}

/-- Where all of the body is before `t`, no piece has been moved. -/
theorem Filled.relined (h : Filled text number i opening node p b q t) :
    Relined style number i opening node p q t [] .empty := by
  have hempty : p ++ Source.empty = p := Source.append_empty p
  have htext : p.text ++ Source.empty.text ++ (t ++ q.text) = p.text ++ t ++ q.text := by
    rw [← Source.text_append, hempty, List.append_assoc]
  refine ⟨Source.even_empty, h.lined, ?_, ?_, ?_⟩
  · rw [htext, h.source, hempty, Source.append_assoc]
  · rw [htext, hempty]
    exact h.declares
  · simp [Source.empty]

/-- A piece before those that have been moved is moved as well. -/
theorem Relined.step {u v w z : Source} {lines : Text}
    (h : Relined style number i opening node (u ++ v) q t lines z) (hstyle : style.BlanksOnly)
    (ht : 0 < t.size) (heven : u.Even ∧ v.Even ∧ q.Even) (hbreak : u.BreakAt (v ++ w) opening)
    (hline : '\n' ∉ v.text) (hlast : ∀ c ∈ v.text.getLast?, isWhite c = false) :
    ∃ z', Relined style number i opening node u q t
      (style.indent.toList ++ v.text.trim ++ style.newline.toList ++ lines) z' := by
  obtain ⟨hu, hv, hq⟩ := heven
  obtain ⟨e, he, hend, -⟩ := hbreak.ends
  have hvlined : Code.Lined v.masked.cells := by
    have hlined := hbreak.lined
    rw [Source.masked_append, Text.cells_append] at hlined
    exact hlined.left
  have hpiece : u.Piece v (z ++ (.plain t ++ q)) := by
    refine ⟨⟨hu, hv, h.even.append ((Source.even_plain t).append hq)⟩, ⟨e, he, hend⟩, hline, ?_⟩
    rw [Source.masked_append, Text.cells_append]
    exact hvlined.append h.lined
  have hblanks : ∀ c ∈ style.newline.toList ++ style.indent.toList, isLayoutBlank c = true :=
    fun c hc => (List.mem_append.mp hc).elim (hstyle.newline c) (hstyle.indent c)
  have hclosing : (u ++ v ++ z ++ .plain t).masked.size =
      (u ++ v).masked.size + (z.masked.size + t.size) := by
    simp only [Source.masked_append, Text.size_append, Nat.add_assoc]
    rfl
  have hdeclares := h.declares
  have hsource := h.source
  rw [hclosing] at hdeclares
  rw [Source.append_assoc (u ++ v), Source.append_assoc u v] at hsource
  obtain ⟨y, hy, hyeven, hylined, hdeclares', hsource'⟩ :=
    hdeclares.lined hsource hpiece hbreak.after (by omega) hbreak.clear hblanks
  have htext : u.text ++
      (Source.plain (style.newline.toList ++ style.indent.toList) ++ y ++ z).text ++ (t ++ q.text) =
        u.text ++ (style.newline.toList ++ style.indent.toList) ++ y.text ++
          (z ++ (.plain t ++ q)).text := by
    simp [Source.plain]
  refine ⟨.plain (style.newline.toList ++ style.indent.toList) ++ y ++ z,
    ((Source.even_plain _).append hyeven).append h.even, ?_, ?_, ?_, ?_⟩
  · rw [Source.append_assoc, Source.append_assoc, Source.masked_append, Text.cells_append]
    exact (Code.lined_blanks fun c hc => hblanks c (Text.mem_cells.mp hc)).append hylined
  · rw [htext, hsource']
    simp only [Source.append_assoc]
  · rw [htext]
    have hsize : (u ++ (Source.plain (style.newline.toList ++ style.indent.toList) ++ y ++ z) ++
        .plain t).masked.size =
        (u ++ (.plain (style.newline.toList ++ style.indent.toList) ++ y)).masked.size +
          (z.masked.size + t.size) := by
      simp only [Source.masked_append, Text.size_append, Nat.add_assoc]
      rfl
    rw [hsize]
    exact hdeclares'
  · rw [Source.text_append, Source.text_append, hy, List.append_assoc, h.text,
      Text.trim_eq_trimStart hlast]
    simp [Source.plain]

section

variable (h : Filled text number i opening node p b q t) (hstyle : style.BlanksOnly)
  (hlast : ∀ c ∈ p.text.getLast?, isWhite c = false)
include h hstyle hlast

/-- What is left behind the last member is moved to a line of its own, unless it is nothing. -/
theorem Filled.exists_trailing {u v : Source} (hparts : p = u ++ v) (hu : u.Even) (hv : v.Even)
    (hbreak : Break text opening u.masked.size) (hline : '\n' ∉ v.text) :
    ∃ z, Relined style number i opening node u q t (trailingLine style v.text) z := by
  subst hparts
  cases hempty : v.text with
  | nil =>
    obtain rfl : v = .empty := by
      obtain ⟨vtext, vmasked⟩ := v
      obtain rfl : vtext = [] := hempty
      have hzero : vmasked.size = 0 := Eq.symm hv
      have hnil : vmasked = [] := by rwa [← List.isEmpty_iff, Text.isEmpty_eq, beq_iff_eq]
      rw [hnil]
      rfl
    rw [Source.append_empty] at h
    exact ⟨.empty, h.relined⟩
  | cons d rest =>
    have hsource := h.eq
    rw [Source.append_assoc, Source.append_assoc] at hsource
    have hlastv : ∀ c ∈ v.text.getLast?, isWhite c = false := by
      intro c hc
      refine hlast c ?_
      rw [Source.text_append, List.getLast?_append, Option.mem_def.mp hc]
      rfl
    have hsolid : v.text.trim ≠ [] := by
      intro hnil
      rw [Text.trim_eq_trimStart hlastv, Text.trimStart, List.dropWhile_eq_nil_iff] at hnil
      have hmem := List.getLast_mem (hempty ▸ List.cons_ne_nil d rest : v.text ≠ [])
      have hwhite := hlastv _ (List.getLast?_eq_some_getLast (List.ne_nil_of_mem hmem))
      rw [hnil _ hmem] at hwhite
      cases hwhite
    obtain ⟨z, hz⟩ := h.relined.step hstyle h.nonempty ⟨hu, hv, h.even.2⟩
      (hbreak.at hsource hu rfl) hline hlastv
    refine ⟨z, ?_⟩
    rw [← hempty, trailingLine, if_neg (by simpa using hsolid)]
    rwa [List.append_nil] at hz

/-- The members of a class and what is left behind the last one are moved to lines of their own. The
last one is moved first, so that the text before it is still that of the source. -/
theorem Filled.exists_relined {members : List MemberLayout} {start : Nat} {u v : Source}
    (hparts : p = u ++ v) (hu : u.Even) (hv : v.Even) (hstart : u.masked.size = start)
    (hlaid : Range.Laid start p.masked.size (members.map MemberLayout.range))
    (hbreaks : ∀ place ∈ start :: members.map (·.range.stop), Break text opening place)
    (hline : '\n' ∉ v.text) :
    ∃ z, Relined style number i opening node u q t
      ((ParsedClass.memberLines text style start members).toList ++ trailingLine style
        (text.slice ((members.getLast?.map (·.range.stop)).getD start) p.masked.size)) z := by
  have hbreak := hbreaks start List.mem_cons_self
  have hsource := h.eq
  induction members generalizing start u v with
  | nil =>
    subst hstart hparts
    rw [Source.append_assoc (u ++ v)] at hsource
    have hrest := Source.slice_parts hsource hu hv
    simp only [List.getLast?_nil, Option.map_none, Option.getD_none, hrest, ParsedClass.memberLines]
    exact h.exists_trailing hstyle hlast rfl hu hv hbreak hline
  | cons m rest ih =>
    subst hstart
    obtain ⟨hfrom, hwide, hto⟩ := hlaid.within m.range List.mem_cons_self
    have hnext := hbreaks m.range.stop (List.mem_cons_of_mem _ List.mem_cons_self)
    -- The text is cut behind the member.
    rw [hparts, Source.append_assoc] at hsource
    obtain ⟨k, w, rfl, hk, hw, hsize⟩ :=
      hnext.exists_cut hsource hu hv (Nat.le_of_lt (Nat.lt_of_le_of_lt hfrom hwide)) (hparts ▸ hto)
    rw [Source.text_append, List.mem_append, not_or] at hline
    rw [← Source.append_assoc] at hparts
    obtain ⟨z, hz⟩ := ih hparts (hu.append hk) hw hsize hlaid.tail
      (fun place hplace => hbreaks place (List.mem_cons_of_mem _ hplace)) hline.2 hnext
    rw [← Source.append_assoc u, Source.append_assoc (u ++ k)] at hsource
    obtain ⟨e, -, hend, he⟩ := (hnext.at hsource (hu.append hk) hsize).ends
    have hlastk : ∀ c ∈ k.text.getLast?, isWhite c = false := by
      intro c hc
      rw [Source.text_append, List.getLast?_append, Option.mem_def.mp hc, Option.some_or] at he
      rw [Option.some.inj he]
      exact Code.not_white_of_isEnd hend
    have hpiece := Source.slice_parts hsource hu hk
    rw [Source.append_assoc] at hsource
    obtain ⟨z', hz'⟩ := hz.step hstyle h.nonempty ⟨hu, hk, h.even.2⟩
      (hbreak.at hsource hu rfl) hline.1 hlastk
    have hget : ((m :: rest).getLast?.map (·.range.stop)).getD u.masked.size =
        (rest.getLast?.map (·.range.stop)).getD m.range.stop := by
      cases hrest : rest.getLast? <;> simp [List.getLast?_cons, hrest]
    refine ⟨z', ?_⟩
    rw [hsize] at hpiece
    rw [hget, ParsedClass.memberLines, hpiece]
    simpa using hz'

end

end SourceFile

end ClassRefactor
