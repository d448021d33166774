import ClassRefactor.Proofs.Comment.Runs
import ClassRefactor.Proofs.Convert.File

/-!
# The comments around a converted method

A conversion writes what stands before the name of the method anew, from the tree. The comments
before and behind it stay what they are and where they are. Those within are not in the tree, unless
they stand within the return type, and are lost.
-/

namespace ClassRefactor

/-- The comments of the first part of a text that begins at an offset. -/
def Scan.commentRuns (s : Scan) (pos : Nat) (front rest : Text) : List (Nat × Text) :=
  Text.commentRunsFrom [] pos (front.zip ((s.modes (front ++ rest)).take front.length))

namespace Scan

variable {s : Scan} {pos : Nat} {front rest : Text}

theorem length_take_modes (s : Scan) (front rest : Text) :
    ((s.modes (front ++ rest)).take front.length).length = front.length := by
  simp [modes]

theorem map_fst_zip_modes (s : Scan) (front rest : Text) :
    (front.zip ((s.modes (front ++ rest)).take front.length)).map Prod.fst = front :=
  List.map_fst_zip (Nat.le_of_eq (s.length_take_modes front rest).symm)

theorem commentRuns_within : ∀ x ∈ s.commentRuns pos front rest,
    pos ≤ x.1 ∧ x.1 < pos + Text.size front := by
  have h := @Text.commentRunsFrom_within [] pos
    (front.zip ((s.modes (front ++ rest)).take front.length)) (Nat.zero_le _)
  rwa [map_fst_zip_modes] at h

theorem commentRuns_eq_nil_iff : s.commentRuns pos front rest = [] ↔
    .comment ∉ (s.modes (front ++ rest)).take front.length := by
  rw [commentRuns, Text.commentRunsFrom_eq_nil_iff,
    List.map_snd_zip (Nat.le_of_eq (s.length_take_modes front rest))]
  simp

theorem holdsInOrder_commentRuns :
    front.HoldsInOrder ((s.commentRuns pos front rest).map Prod.snd) := by
  have h := @Text.holdsInOrder_commentRunsFrom [] pos
    (front.zip ((s.modes (front ++ rest)).take front.length))
  rwa [map_fst_zip_modes] at h

theorem head?_zip_modes (tail : Text)
    (h : ∀ c u, rest = c :: u → (s.next c (u ++ tail)).mode ≠ .comment) :
    ∀ x, (rest.zip ((s.modes (rest ++ tail)).take rest.length)).head? = some x →
      x.2 ≠ .comment := by
  intro x hx
  cases hrest : rest with
  | nil =>
    rw [hrest] at hx
    cases hx
  | cons c u =>
    have hmode := h c u hrest
    rw [hrest, List.cons_append, modes_cons] at hx
    obtain rfl := Option.some.inj hx
    exact hmode

/-- No comment reaches from a text into one that begins with no comment. -/
theorem commentRuns_append {tail : Text} (h : ∀ c u, rest = c :: u →
    ((s.after front (rest ++ tail)).next c (u ++ tail)).mode ≠ .comment) :
    s.commentRuns pos (front ++ rest) tail = s.commentRuns pos front (rest ++ tail) ++
      (s.after front (rest ++ tail)).commentRuns (pos + Text.size front) rest tail := by
  have hmodes := s.modes_append front (rest ++ tail)
  have hlen := s.length_take_modes front (rest ++ tail)
  rw [commentRuns, List.append_assoc, hmodes, List.length_append, List.take_append, hlen,
    Nat.add_sub_cancel_left, List.take_of_length_le (by omega), List.zip_append hlen.symm,
    Text.commentRunsFrom_append (head?_zip_modes tail h), map_fst_zip_modes]
  rfl

end Scan

theorem Text.commentRuns_eq (t : Text) : t.commentRuns = Scan.start.commentRuns 0 t [] := by
  rw [commentRuns, Scan.commentRuns, List.append_nil, modes_eq,
    List.take_of_length_le (by simp [Scan.modes])]

/-- A part of a source that begins with code, and so does what follows it. -/
structure Text.Between (a l d : Text) : Prop where
  first : ∀ c u, l ++ d = c :: u → ((Scan.start.after a (l ++ d)).next c u).mode ≠ .comment
  last : ∀ c u, d = c :: u →
    (((Scan.start.after a (l ++ d)).after l d).next c u).mode ≠ .comment

namespace Text.Between

variable {a l d : Text} (h : Between a l d)
include h

/-- The comments of the source are those before the part, within it and behind it. -/
theorem commentRuns_eq : commentRuns (a ++ (l ++ d)) = Scan.start.commentRuns 0 a (l ++ d) ++
    ((Scan.start.after a (l ++ d)).commentRuns (size a) l d ++
      ((Scan.start.after a (l ++ d)).after l d).commentRuns (size a + size l) d []) := by
  rw [Text.commentRuns_eq, Scan.commentRuns_append, Scan.commentRuns_append]
  · simp only [List.append_nil, Nat.zero_add]
  · simpa only [List.append_nil] using h.last
  · simpa only [List.append_nil] using h.first

theorem commentsOutside_eq : commentsOutside (a ++ (l ++ d)) ⟨size a, size a + size l⟩ =
    Scan.start.commentRuns 0 a (l ++ d) ++
      ((Scan.start.after a (l ++ d)).after l d).commentRuns (size a + size l) d [] := by
  have hbefore : ∀ x ∈ Scan.start.commentRuns 0 a (l ++ d),
      (!Range.contains ⟨size a, size a + size l⟩ x.1) = true := by
    intro x hx
    have := Scan.commentRuns_within x hx
    simp only [Range.contains, Bool.not_eq_true', Bool.and_eq_false_iff, decide_eq_false_iff_not]
    omega
  have hwithin : ∀ x ∈ (Scan.start.after a (l ++ d)).commentRuns (size a) l d,
      ¬(!Range.contains ⟨size a, size a + size l⟩ x.1) = true := by
    intro x hx
    have := Scan.commentRuns_within x hx
    simpa [Range.contains] using this
  have hafter : ∀ x ∈ ((Scan.start.after a (l ++ d)).after l d).commentRuns (size a + size l) d [],
      (!Range.contains ⟨size a, size a + size l⟩ x.1) = true := by
    intro x hx
    have := Scan.commentRuns_within x hx
    simp only [Range.contains, Bool.not_eq_true', Bool.and_eq_false_iff, decide_eq_false_iff_not]
    omega
  rw [commentsOutside, h.commentRuns_eq, List.filter_append, List.filter_append,
    List.filter_eq_self.mpr hbefore, List.filter_eq_nil_iff.mpr hwithin,
    List.filter_eq_self.mpr hafter, List.nil_append]

/-- All comments are outside the part exactly if none begins in it. -/
theorem commentsOutside_eq_iff : commentsOutside (a ++ (l ++ d)) ⟨size a, size a + size l⟩ =
      commentRuns (a ++ (l ++ d)) ↔ ¬HasComment (a ++ (l ++ d)) ⟨size a, size a + size l⟩ := by
  rw [h.commentsOutside_eq, h.commentRuns_eq, hasComment_iff, ← Scan.commentRuns_eq_nil_iff]
  constructor
  · intro heq
    exact List.self_eq_append_left.mp (List.append_cancel_left heq)
  · intro hnil
    rw [hnil, List.nil_append]

/-- What stands outside the part stays if another text takes its place. -/
theorem holdsInOrder (t : Text) : HoldsInOrder (a ++ (t ++ d))
    ((commentsOutside (a ++ (l ++ d)) ⟨size a, size a + size l⟩).map Prod.snd) := by
  rw [h.commentsOutside_eq, List.map_append]
  exact Scan.holdsInOrder_commentRuns.append (Scan.holdsInOrder_commentRuns.append_left t)

/-- If that text is code and leaves the scan of what follows as it was, no other comments are
there. -/
theorem commentRuns_exchanged {t : Text} (hmodes : modes (a ++ (t ++ d)) =
      (modes (a ++ (l ++ d))).take a.length ++ (List.replicate t.length .code ++
        ((Scan.start.after a (l ++ d)).after l d).modes d)) :
    (commentRuns (a ++ (t ++ d))).map Prod.snd =
      (commentsOutside (a ++ (l ++ d)) ⟨size a, size a + size l⟩).map Prod.snd := by
  have hlen := Scan.start.length_take_modes a (l ++ d)
  have hfst := Scan.start.map_fst_zip_modes a (l ++ d)
  rw [← modes_eq] at hlen hfst
  -- Neither the text nor what follows it begins with a comment.
  have hback := Scan.head?_zip_modes [] (by simpa only [List.append_nil] using h.last)
  have hfront : ∀ x, (t.zip (List.replicate t.length Mode.code) ++
      d.zip ((((Scan.start.after a (l ++ d)).after l d).modes (d ++ [])).take d.length)).head? =
        some x → x.2 ≠ .comment := by
    intro x hx
    cases t with
    | nil => exact hback x hx
    | cons c t =>
      obtain rfl := Option.some.inj hx
      nofun
  have hcode : commentRunsFrom [] (0 + size a) (t.zip (List.replicate t.length .code)) = [] := by
    rw [commentRunsFrom_eq_nil_iff, List.map_snd_zip (by simp)]
    simp
  have hend : (((Scan.start.after a (l ++ d)).after l d).modes (d ++ [])).take d.length =
      ((Scan.start.after a (l ++ d)).after l d).modes d := by
    rw [List.append_nil, List.take_of_length_le (by simp [Scan.modes])]
  rw [← hend] at hmodes
  rw [h.commentsOutside_eq, commentRuns, hmodes, List.zip_append hlen.symm,
    List.zip_append (by simp), commentRunsFrom_append hfront, commentRunsFrom_append hback, hfst,
    hcode, List.nil_append, List.map_append, List.map_append, Scan.commentRuns, Scan.commentRuns,
    ← modes_eq]
  exact congrArg _ (commentRunsFrom_move (size a + size l))

end Text.Between

/-- A part of a source whose first cell shows as code, and so does the first one behind it. -/
theorem Text.Between.of_cells {a l d : Text} {first last : Char}
    (hfirst : (mask (a ++ (l ++ d))).cells[size a]? = some first)
    (hlast : (mask (a ++ (l ++ d))).cells[size a + size l]? = some last)
    (hfirst' : isLayoutBlank first = false) (hlast' : isLayoutBlank last = false) :
    Between a l d := by
  constructor
  · intro c u hl
    rw [hl] at hfirst ⊢
    exact Scan.mode_ne_comment_of_cell hfirst hfirst'
  · rintro c u rfl
    rw [← List.append_assoc, ← size_append] at hlast
    rw [← Scan.after_append]
    exact Scan.mode_ne_comment_of_cell hlast hlast'

namespace SourceFile.MethodAt

variable {text : Text} {layout : ClassLayout} {k : Nat} {m : Method} {p u b f y q : Source}
  (h : MethodAt text layout k m p u b f y q)
include h

theorem text_eq : text = (p ++ u).text ++ ((b ++ f).text ++ (y ++ q).text) := by
  simpa [Source.ofText] using congrArg Source.text h.eq

/-- The lead of a method begins with code, and its name follows. -/
theorem between : Text.Between (p ++ u).text (b ++ f).text (y ++ q).text := by
  obtain ⟨c, hparts, -⟩ := h.parts.rest
  obtain ⟨hu, hb, hf, -⟩ := h.parts.even
  obtain ⟨d, hd, hblank⟩ := hparts.head
  obtain ⟨e, he, hname⟩ := h.exists_name
  have hmasked : text.mask = (p ++ u).masked ++ ((b ++ f).masked ++ (y ++ q).masked) := by
    simpa [Source.ofText] using congrArg Source.masked h.eq
  have hpu : (p ++ u).Even := h.even.1.append hu
  have hbf : (b ++ f).Even := hb.append hf
  refine .of_cells ?_ ?_ hblank (Code.isLayoutBlank_of_isNameCell hname)
  · rw [← h.text_eq, hpu, hmasked, Text.getElem?_cells_append_size, Text.cells_append,
      List.head?_append, Source.masked_append, Text.cells_append, hd]
    rfl
  · rw [← h.text_eq, hpu, hbf, hmasked, ← List.append_assoc, ← Text.size_append,
      Text.getElem?_cells_append_size, he]

/-- A well-formed return type holds no comment, so with another lead printed before the name the
comments of the source are those outside the lead. -/
theorem commentRuns_exchanged (hlayout : layout ∈ Code.classLayouts text.mask.cells)
    (hwf : m.returnType.WellFormed) {ms : List String} (hms : ∀ w ∈ ms, w ∈ memberModifiers)
    {t : TypeRef} (ht : t.WellFormed) :
    (Text.commentRuns ((p ++ u).text ++ (leadText ms t ++ (y ++ q).text))).map Prod.snd =
      (text.commentsOutside ⟨(p ++ u).text.size, (p ++ u).text.size + (b ++ f).text.size⟩).map
        Prod.snd := by
  obtain ⟨s₀, s₁, s₂, hlead, -⟩ := h.exists_leadMask hlayout hwf
  obtain ⟨hne, hquiet, hstar⟩ := quiet_leadText hms ht
  have hmodes := hlead.modes_exchanged hne hquiet hstar
  have hafter : (Scan.start.after (p ++ u).text ((b ++ f).text ++ (y ++ q).text)).after
      (b ++ f).text (y ++ q).text = s₂ := by
    rw [Source.text_append b, List.append_assoc, Scan.after_append, hlead.first, hlead.second,
      hlead.third]
  have hexchanged := h.between.commentRuns_exchanged (t := leadText ms t)
  rw [hafter, ← h.text_eq] at hexchanged
  rw [← List.append_assoc b.text, ← Source.text_append, ← h.text_eq] at hmodes
  exact hexchanged hmodes

end SourceFile.MethodAt

namespace ParsedClass

/-- What is converted is a method in the other mode. -/
theorem exists_method_of_convertMethod {c : ParsedClass} {cancelled : Bool} {name : String}
    {text : Text} {k : Nat} {target : MethodMode} {w : WorkspaceEdit}
    (h : c.convertMethod cancelled name text k target = .ok w) :
    cancelled = false ∧ ∃ m, c.node.members[k]? = some (.method m) ∧ m.mode ≠ target := by
  by_contra hnot
  have hnone : cancelled = true ∨ ∀ m, c.node.members[k]? = some (.method m) → m.mode = target := by
    rw [not_and_or, not_exists] at hnot
    refine hnot.imp (by simp) fun hnone m hm => ?_
    simpa [hm] using hnone m
  have herror := convertMethod_eq_error name text hnone
  rw [h] at herror
  rcases herror with herror | herror | herror <;> cases herror

/-- A conversion keeps all comments outside the lead of the method, in their order. So it keeps all
comments if none begins in the lead. Of a method with a well-formed return type it keeps no
others. -/
theorem convertMethod_keeps_comments (text : Text) :
    ∃ file, SourceFile.parse text = .ok file ∧ ∀ c ∈ file.classes,
      ∀ (cancelled : Bool) (name : String) (k : Nat) (target : MethodMode) (w : WorkspaceEdit),
        c.convertMethod cancelled name text k target = .ok w →
        ∃ m layout callable t', c.node.members[k]? = some (.method m) ∧
          c.layout.members[k]? = some layout ∧ layout.shape.callable? = some callable ∧
          text.applyEdits w.edits = .ok t' ∧
          (¬text.HasComment callable.lead → t'.HoldsInOrder (text.commentRuns.map Prod.snd)) ∧
          t'.HoldsInOrder ((text.commentsOutside callable.lead).map Prod.snd) ∧
          (text.commentsOutside callable.lead = text.commentRuns ↔
            ¬text.HasComment callable.lead) ∧
          (m.returnType.WellFormed → t'.commentRuns.map Prod.snd =
            (text.commentsOutside callable.lead).map Prod.snd) := by
  obtain ⟨file, hfile⟩ := SourceFile.exists_parse text
  refine ⟨file, hfile, fun c hc cancelled name k target w hw => ?_⟩
  obtain ⟨rfl, m, hm, hmode⟩ := exists_method_of_convertMethod hw
  obtain ⟨p, u, b, f, y, q, h⟩ := SourceFile.exists_methodAt hfile hc hm
  obtain ⟨layout, callable, hlayout, hcallable, hlead⟩ := h.lead
  have hpu : (p ++ u).Even := h.even.1.append h.parts.even.1
  have hbf : (b ++ f).Even := h.parts.even.2.1.append h.parts.even.2.2.1
  have hrange : callable.lead =
      ⟨(p ++ u).text.size, (p ++ u).text.size + (b ++ f).text.size⟩ := by
    rw [hlead, hpu, hbf, ← Text.size_append]
    rfl
  have hle : callable.lead.start ≤ callable.lead.stop := by
    rw [hrange]
    exact Nat.le_add_right ..
  rw [convertMethod_eq hm hmode hlayout hcallable hle] at hw
  obtain rfl := Except.ok.inj hw
  have hoccur := h.between.holdsInOrder (m.convert false target).renderLead.toList
  have hiff := h.between.commentsOutside_eq_iff
  rw [← h.text_eq, ← hrange] at hoccur hiff
  refine ⟨m, layout, callable, _, hm, hlayout, hcallable, ?_, fun hnone => hiff.mpr hnone ▸ hoccur,
    hoccur, hiff, fun hwf => ?_⟩
  · rw [Text.applyEdits_singleton, h.text_eq, ← List.append_assoc, TextEdit.applyTo_append _
      (congrArg Range.start hrange) (congrArg Range.stop hrange), List.append_assoc]
  · obtain ⟨modifiers, returnType, hconvert⟩ := m.exists_convert_eq target
    have hms := Method.modifiers_convert h.parts.modifiers target
    have ht := Method.wellFormed_convert hwf target
    rw [hconvert] at hms ht
    rw [Method.toList_renderLead, hconvert, hrange]
    exact h.commentRuns_exchanged (SourceFile.layout_of_mem_classes hfile hc).1 hwf hms ht

/-- A class with comments around the lead of a method and within it. -/
def remarkedMethod : Text :=
  "/* a */ class C \x7b // b\n public /* c */ void F(/* d */) \x7b \x7d \x7d".toList

theorem convertMethod_keeps_comments_remarkedMethod :
    ∃ (file : SourceFile) (c : ParsedClass) (w : WorkspaceEdit) (t' : Text),
      SourceFile.parse remarkedMethod = .ok file ∧ file.classes[0]? = some c ∧
      c.convertMethod false "C.cs" remarkedMethod 0 .async = .ok w ∧
      remarkedMethod.applyEdits w.edits = .ok t' ∧
      t'.HoldsInOrder ["/* a */".toList, "// b\n".toList, "/* d */".toList] ∧
      t'.commentRuns.map Prod.snd = ["/* a */".toList, "// b\n".toList, "/* d */".toList] := by
  have hrun : (SourceFile.parse remarkedMethod).toOption.bind (fun f =>
      f.classes[0]?.bind fun c => (c.layout.members[0]?.bind (·.shape.callable?)).bind fun k =>
        (c.node.members[0]?.bind Member.method?).bind fun m =>
          (c.convertMethod false "C.cs" remarkedMethod 0 .async).toOption.map fun _ =>
            ((remarkedMethod.commentsOutside k.lead).map Prod.snd, m.returnType)) =
      some (["/* a */".toList, "// b\n".toList, "/* d */".toList], .void) := by
    decide +kernel
  simp only [Option.bind_eq_some_iff, Option.map_eq_some_iff, toOption_eq_some_iff,
    Prod.mk.injEq] at hrun
  obtain ⟨file, hfile, c, hc, callable, ⟨layout, hlayout, hcallable⟩, m, ⟨member, hmember, hm⟩, w,
    hw, hcomments, htype⟩ := hrun
  obtain rfl := Member.eq_of_method? hm
  obtain ⟨file₀, hfile₀, hkeeps⟩ := convertMethod_keeps_comments remarkedMethod
  obtain rfl := Except.ok.inj (hfile.symm.trans hfile₀)
  obtain ⟨m', layout', callable', t', hmember', hlayout', hcallable', ht', -, hin, -, hall⟩ :=
    hkeeps c (List.mem_of_getElem? hc) false "C.cs" 0 .async w hw
  obtain rfl := Option.some.inj (hlayout.symm.trans hlayout')
  obtain rfl := Option.some.inj (hcallable.symm.trans hcallable')
  obtain rfl := Member.method.inj (Option.some.inj (hmember.symm.trans hmember'))
  have hwf : m.returnType.WellFormed := htype ▸ wellFormed_void
  exact ⟨file, c, w, t', hfile, hc, hw, ht', hcomments ▸ hin, hcomments ▸ hall hwf⟩

/-- A method with a comment between its modifier and its return type. -/
def remarkedModifier : Text := "class C \x7b public /* keep */ void F() \x7b \x7d \x7d".toList

/-- The comment is lost when the method is converted. -/
theorem convert_remarkedModifier :
    ∃ (file : SourceFile) (c : ParsedClass) (w : WorkspaceEdit) (t' : Text),
      SourceFile.parse remarkedModifier = .ok file ∧ file.classes[0]? = some c ∧
      c.convertMethod false "C.cs" remarkedModifier 0 .async = .ok w ∧
      remarkedModifier.applyEdits w.edits = .ok t' ∧
      t' = "class C \x7b public async Task F() \x7b \x7d \x7d".toList ∧
      remarkedModifier.commentRuns = [(17, "/* keep */".toList)] ∧
      ¬t'.HoldsInOrder (remarkedModifier.commentRuns.map Prod.snd) := by
  have hrun : (SourceFile.parse remarkedModifier).toOption.bind (fun f =>
      f.classes[0]?.bind fun c =>
        (c.convertMethod false "C.cs" remarkedModifier 0 .async).toOption.bind fun w =>
          (remarkedModifier.applyEdits w.edits).toOption) =
      some "class C \x7b public async Task F() \x7b \x7d \x7d".toList := by
    decide +kernel
  have hruns : remarkedModifier.commentRuns = [(17, "/* keep */".toList)] := by decide +kernel
  simp only [Option.bind_eq_some_iff, toOption_eq_some_iff] at hrun
  obtain ⟨file, hfile, c, hc, w, hw, ht'⟩ := hrun
  refine ⟨file, c, w, _, hfile, hc, hw, ht', rfl, hruns, ?_⟩
  rw [hruns]
  rintro ⟨a, b, heq, -⟩
  -- The comment has a slash, and the converted text has none.
  have hslash : '/' ∈ "class C \x7b public async Task F() \x7b \x7d \x7d".toList := by
    rw [heq]
    simp
  exact absurd hslash (by decide)

end ParsedClass

end ClassRefactor
