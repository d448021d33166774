import ClassRefactor.Proofs.Exchange.Class
import ClassRefactor.Proofs.Exchange.Segment
import ClassRefactor.Proofs.Source.Local
import ClassRefactor.Proofs.Source.File

/-!
# Reading around an exchanged part

What stands before or behind a part of a source is read alike whatever the part is: the members
there, and the head of the class around it. So a file in which one part is exchanged for another
declares the classes that it declared, and only the members of the class around the part are to be
looked at.
-/

namespace ClassRefactor

namespace Source

section

variable {q g i : Source} (hq : q.Even) (r : Range)
include hq

/-- A member is read alike in two places where the same text stands. -/
theorem exists_member_moved {f h : Source} (hs : (f ++ q ++ g).Sound) (hf : f.Even) (hh : h.Even)
    (hlt : r.start < r.stop) (hstop : r.stop ≤ q.masked.size)
    (hfits : Code.Fits (f ++ q ++ g).masked.cells (r.shift f.masked.size))
    (hsealed : Code.Sealed (f ++ q ++ g).masked.cells (f.masked.size + r.stop))
    (hsealed' : Code.Sealed (h ++ q ++ i).masked.cells (h.masked.size + r.stop))
    (className : Code) :
    ∃ v, (f ++ q ++ g).memberAt className (r.shift f.masked.size) = .ok v ∧
      (h ++ q ++ i).memberAt className (r.shift h.masked.size) = .ok v := by
  have hsound := hs.middle hf hq
  have hfitsPart : Code.Fits q.masked.cells r := by
    rw [cells_masked, ← Text.length_cells f.masked] at hfits
    exact hfits.middle (by simpa using hstop)
  obtain ⟨a, m, b, rfl, ha, hm, -, hstart, hsize⟩ := hsound.exists_parts hq hfitsPart
  obtain ⟨v, hv⟩ := (hsound.middle ha hm).exists_member (by omega) className
  have hread : ∀ {u w : Source}, u.Even →
      Code.Sealed (u ++ (a ++ m ++ b) ++ w).masked.cells (u.masked.size + r.stop) →
      (u ++ (a ++ m ++ b) ++ w).memberAt className (r.shift u.masked.size) = .ok v := by
    intro u w hu hsealed
    have hwhole : u ++ (a ++ m ++ b) ++ w = u ++ a ++ m ++ (b ++ w) := by simp only [append_assoc]
    have hrange : r.shift u.masked.size =
        ⟨(u ++ a).masked.size, (u ++ a).masked.size + m.masked.size⟩ := by
      simp only [Range.shift, masked_append, Text.size_append, ← hstart, ← hsize, Nat.add_assoc]
    rw [← hsize] at hsealed
    rw [hwhole] at hsealed ⊢
    rw [hrange]
    exact member_middle
      (by simpa only [masked_append, Text.size_append, Nat.add_assoc] using hsealed)
      (hu.append ha) hv
  exact ⟨v, hread hf hsealed, hread hh hsealed'⟩

end

/-- A member before an exchanged part is read as before. -/
theorem exists_member_before {a g i : Source} (ha : a.Even) (hs : (a ++ g).Sound) {r : Range}
    (hlt : r.start < r.stop) (hstop : r.stop ≤ a.masked.size)
    (hfits : Code.Fits (a ++ g).masked.cells r) (hsealed : Code.Sealed (a ++ g).masked.cells r.stop)
    (hsealed' : Code.Sealed (a ++ i).masked.cells r.stop) (className : Code) :
    ∃ v, (a ++ g).memberAt className r = .ok v ∧ (a ++ i).memberAt className r = .ok v := by
  have hzero : r.shift empty.masked.size = r := Range.shift_zero r
  have hplace : empty.masked.size + r.stop = r.stop := Nat.zero_add _
  have := @exists_member_moved a g i ha r empty empty
  rw [hzero, hplace] at this
  exact this hs even_empty even_empty hlt hstop hfits hsealed hsealed' className

theorem within_front (q g : Source) : q.Within (q ++ g) 0 := within_middle even_empty q g

end Source

theorem ClassLayout.members_of_read {s : Source} {l : ClassLayout} {node : ClassNode}
    (h : l.read s = .ok node) :
    List.Forall₂ (fun m v => MemberLayout.read s m = .ok v) l.members node.members := by
  simp only [read, bind_eq_ok_iff] at h
  obtain ⟨_, -, _, -, _, -, _, -, _, -, members, hmembers, heq⟩ := h
  obtain rfl := Except.ok.inj heq
  exact mapM_eq_ok_iff.mp hmembers

theorem Code.Fits.front {q g : Source} {r : Range} (h : Code.Fits (q ++ g).masked.cells r)
    (hstop : r.stop ≤ q.masked.size) : Code.Fits q.masked.cells r := by
  rw [Source.masked_append, Text.cells_append] at h
  exact h.left (by rwa [Text.length_cells])

/-- What is read of a range without the white space around it does not depend on what follows. -/
theorem Source.clause_front {q g i : Source} (hs : (q ++ g).Sound) (hq : q.Even) {r : Range}
    (hfits : Code.Fits (q ++ g).masked.cells r) (hstop : r.stop ≤ q.masked.size)
    {o : Option OpaqueText} (h : (q ++ g).clause r = .ok o) : (q ++ i).clause r = .ok o := by
  obtain ⟨o', ho'⟩ := Source.exists_clause (hs.left hq) (hfits.front hstop)
  have hboth : ∀ w : Source, (q ++ w).clause r = .ok o' := by
    intro w
    have hrefines : Refines (q.clause r) ((q ++ w).clause (r.shift 0)) :=
      ((q.within_front w).text _).bind fun _ => .refl _
    simpa using hrefines _ ho'
  rw [hboth g] at h
  rw [hboth i, Except.ok.inj h]

/-- A class whose name and type parameters stand before the exchanged part keeps its head, if what is
behind them is read as before. -/
theorem ClassLayout.read_exchanged {q g i : Source} (hs : (q ++ g).Sound) (hq : q.Even)
    {l : ClassLayout} (hl : l.Readable (q ++ g).masked.cells) (hname : l.name.stop ≤ q.masked.size)
    (hparams : ∀ r, l.typeParams = some r → r.stop ≤ q.masked.size) {node : ClassNode}
    (hnode : l.read (q ++ g) = .ok node) {range header tail : Range} {opening closing : Nat}
    {layouts : List MemberLayout} {members : List Member} (hrange : range.start ≤ range.stop)
    (hheader : header.start ≤ header.stop)
    (htail : ∀ o, (q ++ g).clause l.tail = .ok o → (q ++ i).clause tail = .ok o)
    (hmembers : layouts.mapM (MemberLayout.read (q ++ i)) = .ok members) :
    ({ l with range, header, tail, opening, closing, members := layouts } : ClassLayout).read (q ++ i) =
      .ok { node with members } := by
  have hsound := hs.left hq
  have hboth : ∀ w : Source, q.Within (q ++ w) 0 := q.within_front
  have hnameRead := Source.name_eq hsound (hl.name.front hname)
  obtain ⟨typeParams, hparamsRead⟩ := Source.exists_optional fun r hr =>
    ⟨_, Source.verbatim_eq hsound ((hl.typeParams r hr).front (hparams r hr))⟩
  obtain ⟨bases, hbases⟩ := Source.exists_clause hs hl.tail
  have hnames : ∀ w, (q ++ w).name l.name = .ok (.ofList (q.masked.slice l.name.start l.name.stop)) :=
    fun w => by simpa using (hboth w).name _ _ hnameRead
  have htypeParams : ∀ w, Source.optional (q ++ w).verbatim l.typeParams = .ok typeParams := by
    intro w
    have hrefines : Refines (Source.optional q.verbatim l.typeParams)
        (Source.optional (q ++ w).verbatim (l.typeParams.map (Range.shift 0))) :=
      Refines.optional (fun r => ((hboth w).text r).bind fun _ => .refl _) l.typeParams
    have hshift : l.typeParams.map (Range.shift 0) = l.typeParams := by
      cases l.typeParams <;> simp
    rw [hshift] at hrefines
    exact hrefines _ hparamsRead
  simp only [ClassLayout.read, hl.range.checked, hl.header.checked, hnames, htypeParams, hbases,
    bind, Except.bind, pure, Except.pure] at hnode
  simp only [ClassLayout.read, Range.checked, hrange, hheader, ↓reduceIte, hnames, htypeParams,
    htail _ hbases, hmembers, bind, Except.bind, pure, Except.pure]
  split at hnode
  · cases hnode
  · cases hnode
    rfl

/-- The name of a class is read where its layout says. -/
theorem ClassLayout.cells_name {text : Text} {l : ClassLayout}
    (hl : l ∈ Code.classLayouts text.mask.cells) {node : ClassNode}
    (hnode : l.read (Source.ofText text) = .ok node) :
    Text.cells node.name.toList = Code.window text.mask.cells l.name.start l.name.stop := by
  obtain ⟨-, hreadable⟩ := Code.classLayouts_spec hl
  have hs := Source.sound_ofText text
  obtain ⟨hle, hstart, hstop⟩ := hreadable.name
  simp only [read, bind_eq_ok_iff] at hnode
  obtain ⟨_, -, _, -, name, hname, _, -, _, -, _, -, heq⟩ := hnode
  obtain rfl := Except.ok.inj heq
  rw [Source.name_eq hs hreadable.name] at hname
  obtain rfl := Except.ok.inj hname
  rw [String.toList_ofList, Text.cells_slice (hs _ hstart).2 (hs _ hstop).2 hle]
  rfl

/-- The members of a class: their ranges are laid in its body, end where the code is sealed, and are
read one by one. -/
structure Source.Body (s : Source) (l : ClassLayout) (members : List Member) : Prop where
  laid : Range.Laid (l.opening + 1) l.closing
    (Code.memberRanges s.masked.cells (l.opening + 1) l.closing)
  fits : ∀ r ∈ Code.memberRanges s.masked.cells (l.opening + 1) l.closing,
    Code.Fits s.masked.cells r
  sealed : ∀ r ∈ Code.memberRanges s.masked.cells (l.opening + 1) l.closing,
    Code.Sealed s.masked.cells r.stop
  read : List.Forall₂ (fun r v => s.memberAt
      (Code.window s.masked.cells l.name.start l.name.stop) r = .ok v)
    (Code.memberRanges s.masked.cells (l.opening + 1) l.closing) members

theorem ClassLayout.body_of_read {s : Source} {l : ClassLayout}
    (hl : l ∈ Code.classLayouts s.masked.cells) {node : ClassNode} (hnode : l.read s = .ok node) :
    s.Body l node.members := by
  obtain ⟨hlaid, -⟩ := Code.classLayouts_spec hl
  obtain ⟨hranges, hsound⟩ := Code.memberRanges_of_wellLaid hlaid
  obtain ⟨-, -, -, hmembers⟩ := Code.classLayouts_parts hl
  have hread := members_of_read hnode
  rw [hmembers, List.forall₂_map_left_iff] at hread
  exact ⟨hranges, fun r hr => ⟨Nat.le_of_lt (hranges.within r hr).2.1, (hsound r hr).seams⟩,
    fun r hr => Code.sealed_of_sound (hsound r hr) hlaid.closes, hread⟩

/-- A part of a source and another to put in its place. -/
structure Source.Swap (a b b' c : Source) : Prop where
  even : a.Even ∧ b.Even ∧ b'.Even ∧ c.Even
  sound : (a ++ b ++ c).Sound

namespace Source.Swap

variable {a b b' c : Source} (h : Swap a b b' c) {r r' : Range}

/-- The range around the exchanged part grows with it. -/
theorem eq_of_moved (hr : r.Moved a.masked.cells b.masked.cells b'.masked.cells r')
    (hstart : r.start < (a ++ b).masked.size) (hstop : (a ++ b).masked.size < r.stop) :
    r' = ⟨r.start, (a ++ b').masked.size + (r.stop - (a ++ b).masked.size)⟩ := by
  simp only [masked_append, Text.size_append] at hstart hstop ⊢
  cases hr with
  | before hle =>
    rw [Text.length_cells] at hle
    omega
  | around _ _ _ _ => simp
  | behind r =>
    simp only [Range.shift, List.length_append, Text.length_cells] at hstart
    omega

include h

/-- A member before or behind the exchanged part is read as before. -/
theorem exists_member (hr : r.Moved a.masked.cells b.masked.cells b'.masked.cells r')
    (hlt : r.start < r.stop) (hfits : Code.Fits (a ++ b ++ c).masked.cells r)
    (hsealed : Code.Sealed (a ++ b ++ c).masked.cells r.stop)
    (hsealed' : Code.Sealed (a ++ b' ++ c).masked.cells r'.stop)
    (haway : r.stop ≤ a.masked.size ∨ (a ++ b).masked.size ≤ r.start) (className : Code) :
    ∃ v, (a ++ b ++ c).memberAt className r = .ok v ∧
      (a ++ b' ++ c).memberAt className r' = .ok v := by
  obtain ⟨ha, hb, hb', hc⟩ := h.even
  have hsound := h.sound
  cases hr with
  | before hle =>
    rw [append_assoc] at hsound hfits hsealed hsealed' ⊢
    rw [append_assoc a b']
    exact exists_member_before ha hsound hlt (by simpa using hle) hfits hsealed hsealed' className
  | around hstart hb hb' hn =>
    dsimp only at haway
    simp only [List.length_append, Text.length_cells, masked_append, Text.size_append] at haway hb
    omega
  | behind r =>
    have hback : ∀ u, a ++ u ++ c = a ++ u ++ c ++ empty := fun u => (append_empty _).symm
    have hsize : ∀ u : Source, (a.masked.cells ++ u.masked.cells).length = (a ++ u).masked.size :=
      fun u => by simp
    have hstop : r.stop ≤ c.masked.size := by
      have hle := hfits.2.2.le
      simp only [Range.shift, cells_masked, List.length_append, Text.length_cells] at hle
      omega
    rw [hback b, hsize] at hfits hsealed
    rw [hback b', hsize] at hsealed'
    rw [hback b] at hsound
    rw [hback b, hback b', hsize, hsize]
    exact exists_member_moved hc r hsound (ha.append hb) (ha.append hb')
      (by simpa [Range.shift] using hlt) hstop hfits hsealed hsealed' className

/-- Of the members of a class only the one around the exchanged part is read anew. -/
theorem members_set {l : ClassLayout} {members : List Member} (hbody : (a ++ b ++ c).Body l members)
    {rs' : List Range}
    (hmoved : List.Forall₂ (Range.Moved a.masked.cells b.masked.cells b'.masked.cells)
      (Code.memberRanges (a ++ b ++ c).masked.cells (l.opening + 1) l.closing) rs')
    (hsealed' : ∀ r ∈ rs', Code.Sealed (a ++ b' ++ c).masked.cells r.stop) {k : Nat}
    (hr : (Code.memberRanges (a ++ b ++ c).masked.cells (l.opening + 1) l.closing)[k]? = some r)
    (hbegin : r.start ≤ a.masked.size) (hstart : r.start < (a ++ b).masked.size)
    (hstop : (a ++ b).masked.size < r.stop) {v : Member}
    (hv : Code.Sealed (a ++ b' ++ c).masked.cells
        ((a ++ b').masked.size + (r.stop - (a ++ b).masked.size)) →
      (a ++ b' ++ c).memberAt (Code.window (a ++ b ++ c).masked.cells l.name.start l.name.stop)
        ⟨r.start, (a ++ b').masked.size + (r.stop - (a ++ b).masked.size)⟩ = .ok v) :
    List.Forall₂ (fun r v => (a ++ b' ++ c).memberAt
        (Code.window (a ++ b ++ c).masked.cells l.name.start l.name.stop) r = .ok v) rs'
      (members.set k v) := by
  obtain ⟨hlaid, hfits, hsealed, hread⟩ := hbody
  generalize Code.memberRanges (a ++ b ++ c).masked.cells (l.opening + 1) l.closing = rs at *
  rw [List.forall₂_iff_get] at hmoved hread ⊢
  obtain ⟨hlen, hmoved⟩ := hmoved
  obtain ⟨hlenRead, hread⟩ := hread
  obtain ⟨hk, rfl⟩ := List.getElem?_eq_some_iff.mp hr
  refine ⟨by rw [List.length_set, ← hlenRead, hlen], fun j hj hj' => ?_⟩
  have hjold : j < rs.length := hlen ▸ hj
  have hjmoved := hmoved j hjold hj
  have hordered := List.pairwise_iff_getElem.mp hlaid.ordered
  simp only [List.get_eq_getElem] at hjmoved ⊢
  by_cases hjk : k = j
  · subst hjk
    have heq := eq_of_moved hjmoved hstart hstop
    have hend := hsealed' _ (List.getElem_mem hj)
    rw [heq] at hend
    rw [List.getElem_set_self, heq]
    exact hv hend
  · have haway : rs[j].stop ≤ a.masked.size ∨ (a ++ b).masked.size ≤ rs[j].start := by
      rcases Nat.lt_or_gt_of_ne hjk with hlt | hgt
      · have := hordered k j hk hjold hlt
        omega
      · have := hordered j k hjold hk hgt
        omega
    have hmem := List.getElem_mem hjold
    obtain ⟨w, hw, hw'⟩ := h.exists_member hjmoved (hlaid.within _ hmem).2.1 (hfits _ hmem)
      (hsealed _ hmem) (hsealed' _ (List.getElem_mem hj)) haway
      (Code.window (a ++ b ++ c).masked.cells l.name.start l.name.stop)
    have hold := hread j hjold (hlenRead ▸ hjold)
    rw [List.get_eq_getElem, hw] at hold
    rw [List.getElem_set_ne hjk, hw']
    exact hold

/-- A class around the exchanged part, or with its header before it, is read with its head and with
the members that are read from its body. -/
theorem read_class {l l' : ClassLayout} {node : ClassNode}
    (hl : l ∈ Code.classLayouts (a ++ b ++ c).masked.cells)
    (hl' : l' ∈ Code.classLayouts (a ++ b' ++ c).masked.cells)
    (hexchanged : Code.Exchanged a.masked.cells b.masked.cells b'.masked.cells c.masked.cells l l')
    (hnode : l.read (a ++ b ++ c) = .ok node)
    (htail : ∀ o, (a ++ b ++ c).clause l.tail = .ok o → (a ++ b' ++ c).clause l'.tail = .ok o)
    {members : List Member}
    (hmembers : (∀ r ∈ Code.memberRanges (a ++ b' ++ c).masked.cells (l'.opening + 1) l'.closing,
        Code.Sealed (a ++ b' ++ c).masked.cells r.stop) →
      List.Forall₂ (fun r v => (a ++ b' ++ c).memberAt
          (Code.window (a ++ b ++ c).masked.cells l.name.start l.name.stop) r = .ok v)
        (Code.memberRanges (a ++ b' ++ c).masked.cells (l'.opening + 1) l'.closing) members) :
    l'.read (a ++ b' ++ c) = .ok { node with members } := by
  obtain ⟨-, hreadable⟩ := Code.classLayouts_spec hl
  obtain ⟨hlaid', hreadable'⟩ := Code.classLayouts_spec hl'
  obtain ⟨-, hsound'⟩ := Code.memberRanges_of_wellLaid hlaid'
  obtain ⟨hname, hparams⟩ := hexchanged.front
  have heq := hexchanged.eq
  have hall := hmembers fun r hr => Code.sealed_of_sound (hsound' r hr) hlaid'.closes
  have hwhole := h.sound
  have hrange := hreadable'.range.1
  have hheader := hreadable'.header.1
  rw [Text.length_cells] at hname
  simp only [Text.length_cells] at hparams
  rw [append_assoc] at hwhole hreadable hnode htail
  rw [heq] at hrange hheader htail ⊢
  rw [append_assoc a b' c] at hall htail ⊢
  refine ClassLayout.read_exchanged hwhole h.even.1 hreadable hname hparams hnode hrange hheader
    htail ?_
  rw [mapM_eq_ok_iff, ← cells_masked, ← cells_masked, append_assoc a b' c,
    List.forall₂_map_left_iff]
  exact hall

end Source.Swap

namespace SourceFile

/-- With one part of a source exchanged for another, the file declares the classes that it declared.
A class around the part, or with its header before it, has the head that it had, if its tail is read
as before, and the members that are read from its body. -/
theorem exists_reread {text text' : Text} {a b b' c : Source}
    (htext : Source.ofText text = a ++ b ++ c) (htext' : Source.ofText text' = a ++ b' ++ c)
    (h : Source.Swap a b b' c) {n : Nat}
    (hswap : Code.Swappable a.masked.cells b.masked.cells b'.masked.cells c.masked.cells n)
    {file : SourceFile} (hfile : parse text = .ok file) {i : Nat} {d : ParsedClass}
    (hd : file.classes[i]? = some d) {opening q : Nat}
    (hopening : Code.Moved a.masked.cells b.masked.cells b'.masked.cells d.layout.opening opening)
    (hle : d.layout.opening ≤ (a ++ b).masked.size)
    (hclosing : d.layout.closing = (a ++ b).masked.size + q)
    (htail : ∀ start, Code.Fits (a ++ b' ++ c).masked.cells ⟨start, opening⟩ →
      (start = d.layout.tail.start ∨
        a.masked.size ≤ d.layout.tail.start ∧ a.masked.size ≤ start) →
      ∀ o, (a ++ b ++ c).clause d.layout.tail = .ok o →
        (a ++ b' ++ c).clause ⟨start, opening⟩ = .ok o) {members : List Member}
    (hmembers : (∀ r ∈ Code.memberRanges (a ++ b' ++ c).masked.cells (opening + 1)
          ((a ++ b').masked.size + q), Code.Sealed (a ++ b' ++ c).masked.cells r.stop) →
      List.Forall₂ (fun r v => (a ++ b' ++ c).memberAt (Code.window (a ++ b ++ c).masked.cells
          d.layout.name.start d.layout.name.stop) r = .ok v)
        (Code.memberRanges (a ++ b' ++ c).masked.cells (opening + 1) ((a ++ b').masked.size + q))
        members) :
    ∃ file' d', parse text' = .ok file' ∧ file'.classes.length = file.classes.length ∧
      file'.classes[i]? = some d' ∧ d'.layout.opening = opening ∧
      d'.layout.closing = (a ++ b').masked.size + q ∧ d'.node = { d.node with members } := by
  obtain ⟨hlayout, hnode⟩ := layout_of_mem_classes hfile (List.mem_of_getElem? hd)
  obtain ⟨file', hfile'⟩ := exists_parse text'
  have hclasses := parse_eq_ok_iff.mp hfile
  have hclasses' := parse_eq_ok_iff.mp hfile'
  have hlayouts := Code.classLayouts_exchanged hswap
  change _ ∈ Code.classLayouts (Source.ofText text).masked.cells at hlayout
  change List.Forall₂ _ (Code.classLayouts (Source.ofText text).masked.cells) _ at hclasses
  change List.Forall₂ _ (Code.classLayouts (Source.ofText text').masked.cells) _ at hclasses'
  rw [htext] at hlayout hnode hclasses
  rw [htext'] at hclasses'
  rw [← Source.cells_masked, ← Source.cells_masked] at hlayouts
  obtain ⟨-, hlayoutAt, -, rfl, -⟩ := exists_getElem?_of_forall₂ hclasses hd
  obtain ⟨l', hlayoutAt', hexchanged⟩ := exists_getElem?_of_forall₂ hlayouts.flip hlayoutAt
  obtain ⟨d', hd', hnode', rfl, -⟩ := exists_getElem?_of_forall₂ hclasses'.flip hlayoutAt'
  have hsize : ∀ z : Source, (a.masked.cells ++ z.masked.cells).length = (a ++ z).masked.size :=
    fun z => by simp
  have hexchanged := hexchanged (by rwa [hsize])
  have hopening' : d'.layout.opening = opening := hexchanged.opening.unique hopening
  have hclosing' : d'.layout.closing = (a ++ b').masked.size + q := by
    refine hexchanged.closing.unique (.inr ⟨q, ?_, ?_⟩)
    · rw [hclosing, hsize]
    · rw [hsize]
  have hlayout' := List.mem_of_getElem? hlayoutAt'
  have hends := (Code.classLayouts_parts hlayout').2.2.1
  have htail' : d'.layout.tail = ⟨d'.layout.tail.start, opening⟩ := by
    rw [← hopening', ← hends]
  have hread := h.read_class hlayout hlayout' hexchanged hnode (fun o ho => ?_)
    (by rwa [hclosing', hopening'])
  · rw [hnode'] at hread
    refine ⟨file', d', hfile', ?_, hd', hopening', hclosing', Except.ok.inj hread⟩
    rw [← hclasses'.length_eq, ← hlayouts.length_eq, hclasses.length_eq]
  · have hfits := (Code.classLayouts_spec hlayout').2.tail
    rw [htail'] at hfits ⊢
    exact htail _ hfits (by simpa only [Text.length_cells] using hexchanged.tail) o ho

/-- With one part of a source exchanged for another, a class around the part has the head that it had
and the members that are read from its body. -/
theorem exists_swapped {text text' : Text} {a b b' c : Source}
    (htext : Source.ofText text = a ++ b ++ c) (htext' : Source.ofText text' = a ++ b' ++ c)
    (h : Source.Swap a b b' c) {n : Nat}
    (hswap : Code.Swappable a.masked.cells b.masked.cells b'.masked.cells c.masked.cells n)
    {file : SourceFile} (hfile : parse text = .ok file) {i : Nat} {d : ParsedClass}
    (hd : file.classes[i]? = some d) (hopening : d.layout.opening < a.masked.size) {q : Nat}
    (hclosing : d.layout.closing = (a ++ b).masked.size + q) {members : List Member}
    (hmembers : (∀ r ∈ Code.memberRanges (a ++ b' ++ c).masked.cells (d.layout.opening + 1)
          ((a ++ b').masked.size + q), Code.Sealed (a ++ b' ++ c).masked.cells r.stop) →
      List.Forall₂ (fun r v => (a ++ b' ++ c).memberAt (Code.window (a ++ b ++ c).masked.cells
          d.layout.name.start d.layout.name.stop) r = .ok v)
        (Code.memberRanges (a ++ b' ++ c).masked.cells (d.layout.opening + 1)
          ((a ++ b').masked.size + q)) members) :
    ∃ file' d', parse text' = .ok file' ∧ file'.classes.length = file.classes.length ∧
      file'.classes[i]? = some d' ∧ d'.layout.opening = d.layout.opening ∧
      d'.layout.closing = (a ++ b').masked.size + q ∧ d'.node = { d.node with members } := by
  obtain ⟨hlayout, -⟩ := layout_of_mem_classes hfile (List.mem_of_getElem? hd)
  obtain ⟨-, -, hends, -⟩ := Code.classLayouts_parts hlayout
  have hfits := (Code.classLayouts_spec hlayout).2.tail
  change Code.Fits (Source.ofText text).masked.cells _ at hfits
  rw [htext] at hfits
  have hle := hfits.1
  have hbefore : d.layout.opening < a.masked.cells.length := by rwa [Text.length_cells]
  refine exists_reread htext htext' h hswap hfile hd (.inl ⟨hbefore, rfl⟩) ?_ hclosing ?_ hmembers
  · rw [Source.masked_append, Text.size_append]
    omega
  · intro start _ hstart o ho
    obtain rfl : start = d.layout.tail.start := by
      rcases hstart with hsame | ⟨hbehind, -⟩
      · exact hsame
      · omega
    have hsound := h.sound
    rw [Source.append_assoc] at hsound hfits ho ⊢
    rw [← hends]
    exact Source.clause_front hsound h.even.1 hfits (by omega) ho

/-- Where a member of a class stands in the source, and what it is read as on its own. -/
structure MemberAt (text : Text) (layout : ClassLayout) (k : Nat) (v : Member) (p x q : Source) :
    Prop where
  eq : Source.ofText text = p ++ x ++ q
  even : p.Even ∧ x.Even ∧ q.Even
  range : (Code.memberRanges text.mask.cells (layout.opening + 1) layout.closing)[k]? =
    some ⟨p.masked.size, (p ++ x).masked.size⟩
  member : x.member (Code.window text.mask.cells layout.name.start layout.name.stop) = .ok v
  found : layout.members[k]? = some ((Code.memberLayout x.masked.cells
    (Code.window text.mask.cells layout.name.start layout.name.stop)
    ⟨0, x.masked.cells.length⟩).shift p.masked.size)

/-- The member that is read in a part of a source at the range of a member. -/
theorem memberAt_of_parts {text : Text} {file : SourceFile} (hfile : parse text = .ok file)
    {c : ParsedClass} (hc : c ∈ file.classes) {p x q : Source}
    (heq : Source.ofText text = p ++ x ++ q) (heven : p.Even ∧ x.Even ∧ q.Even) {k : Nat}
    (hrange : (Code.memberRanges text.mask.cells (c.layout.opening + 1) c.layout.closing)[k]? =
      some ⟨p.masked.size, (p ++ x).masked.size⟩) {v : Member}
    (hv : x.member (Code.window text.mask.cells c.layout.name.start c.layout.name.stop) = .ok v) :
    MemberAt text c.layout k v p x q := by
  obtain ⟨hlayout, -⟩ := layout_of_mem_classes hfile hc
  obtain ⟨-, -, -, hmembers⟩ := Code.classLayouts_parts hlayout
  obtain ⟨hlaid, -⟩ := Code.classLayouts_spec hlayout
  obtain ⟨-, hsound⟩ := Code.memberRanges_of_wellLaid hlaid
  have hsealed : Code.Sealed (Source.ofText text).masked.cells (p ++ x).masked.size :=
    Code.sealed_of_sound (hsound _ (List.mem_of_getElem? hrange)) hlaid.closes
  refine ⟨heq, heven, hrange, hv, ?_⟩
  rw [hmembers, List.getElem?_map, hrange, Option.map_some]
  generalize Code.window text.mask.cells c.layout.name.start c.layout.name.stop = className
  change some (Code.memberLayout (Source.ofText text).masked.cells className _) = _
  rw [Source.masked_append p x, Text.size_append] at hsealed ⊢
  rw [heq] at hsealed ⊢
  rw [Source.memberLayout_middle hsealed]

theorem exists_memberAt {text : Text} {file : SourceFile} (hfile : parse text = .ok file)
    {c : ParsedClass} (hc : c ∈ file.classes) {k : Nat} {v : Member}
    (hv : c.node.members[k]? = some v) : ∃ p x q, MemberAt text c.layout k v p x q := by
  obtain ⟨hlayout, hnode⟩ := layout_of_mem_classes hfile hc
  obtain ⟨-, -, -, hmembers⟩ := Code.classLayouts_parts hlayout
  obtain ⟨hlaid, -⟩ := Code.classLayouts_spec hlayout
  obtain ⟨hranges, hsound⟩ := Code.memberRanges_of_wellLaid hlaid
  obtain ⟨l, hl, hread⟩ := exists_getElem?_of_forall₂ (ClassLayout.members_of_read hnode) hv
  rw [hmembers, List.getElem?_map, Option.map_eq_some_iff] at hl
  obtain ⟨r, hr, rfl⟩ := hl
  have hmem := List.mem_of_getElem? hr
  have hwithin := hranges.within r hmem
  have hsealed := Code.sealed_of_sound (hsound r hmem) hlaid.closes
  have hwhole := Source.sound_ofText text
  obtain ⟨p, x, q, heq, hp, hx, hq, hstart, hstop⟩ := hwhole.exists_parts
    (Source.even_ofText text) (r := r) ⟨Nat.le_of_lt hwithin.2.1, (hsound r hmem).seams⟩
  have hrange : r = ⟨p.masked.size, p.masked.size + x.masked.size⟩ := by rw [hstop, hstart]
  refine ⟨p, x, q, memberAt_of_parts hfile hc heq ⟨hp, hx, hq⟩ ?_ ?_⟩
  · rw [hr, hrange, Source.masked_append, Text.size_append]
  · generalize Code.window text.mask.cells c.layout.name.start c.layout.name.stop = className at *
    change (Source.ofText text).memberAt className r = .ok v at hread
    change Code.Sealed (Source.ofText text).masked.cells r.stop at hsealed
    rw [heq] at hwhole
    rw [heq, hrange] at hread hsealed
    obtain ⟨v', hv'⟩ := (hwhole.middle hp hx).exists_member (by omega) className
    have hagain := Source.member_middle hsealed hp hv'
    rw [hread] at hagain
    obtain rfl := Except.ok.inj hagain
    exact hv'

/-- With a part of a member exchanged, the class of the member is read with that member anew. -/
theorem exists_swapped_member {text text' : Text} {file : SourceFile} (hfile : parse text = .ok file)
    {i : Nat} {d : ParsedClass} (hd : file.classes[i]? = some d) {p u b b' y q : Source} {k : Nat}
    {v v' : Member} (h : MemberAt text d.layout k v p (u ++ b ++ y) q)
    (htext' : Source.ofText text' = p ++ (u ++ b' ++ y) ++ q) (hu : u.Even) (hy : y.Even)
    (hswap : Source.Swap (p ++ u) b b' (y ++ q)) {n : Nat}
    (hswappable : Code.Swappable (p ++ u).masked.cells b.masked.cells b'.masked.cells
      (y ++ q).masked.cells n)
    (hstart : 0 < (u ++ b).masked.size) (hstop : 0 < y.masked.size)
    (hmoved : d.layout.opening < (p ++ u).masked.size → ∀ j, 0 < j → j ≤ (y ++ q).masked.size →
      d.layout.closing = (p ++ u ++ b).masked.size + j →
      List.Forall₂ (Range.Moved (p ++ u).masked.cells b.masked.cells b'.masked.cells)
        (Code.memberRanges (p ++ u ++ b ++ (y ++ q)).masked.cells (d.layout.opening + 1)
          ((p ++ u ++ b).masked.size + j))
        (Code.memberRanges (p ++ u ++ b' ++ (y ++ q)).masked.cells (d.layout.opening + 1)
          ((p ++ u ++ b').masked.size + j)))
    (hv' : (u ++ b' ++ y).member
      (Code.window text.mask.cells d.layout.name.start d.layout.name.stop) = .ok v') :
    ∃ file' d', parse text' = .ok file' ∧ file'.classes.length = file.classes.length ∧
      file'.classes[i]? = some d' ∧ MemberAt text' d'.layout k v' p (u ++ b' ++ y) q ∧
      d'.node = { d.node with members := d.node.members.set k v' } := by
  have hassoc : ∀ z : Source, p ++ (u ++ z ++ y) ++ q = p ++ u ++ z ++ (y ++ q) := fun z => by
    simp only [Source.append_assoc]
  have htext := h.eq
  rw [hassoc] at htext
  obtain ⟨hlayout, hnode⟩ := layout_of_mem_classes hfile (List.mem_of_getElem? hd)
  have hbody : (Source.ofText text).Body d.layout d.node.members :=
    ClassLayout.body_of_read (s := Source.ofText text) hlayout hnode
  have hr := h.range
  have hname := ClassLayout.cells_name hlayout hnode
  rw [← hname] at hv'
  change (Code.memberRanges (Source.ofText text).masked.cells _ _)[k]? = _ at hr
  change _ = Code.window (Source.ofText text).masked.cells _ _ at hname
  rw [htext] at hbody hr hname
  obtain ⟨hfrom, -, hto⟩ := hbody.laid.within _ (List.mem_of_getElem? hr)
  dsimp only at hfrom hto
  have hsize : ∀ z : Source, (p ++ (u ++ z ++ y)).masked.size =
      (p ++ u ++ z).masked.size + y.masked.size := fun z => by
    simp only [Source.masked_append, Text.size_append, Nat.add_assoc]
  rw [hsize] at hto
  obtain ⟨j, hclosing⟩ : ∃ j, d.layout.closing = (p ++ u ++ b).masked.size + j :=
    ⟨d.layout.closing - (p ++ u ++ b).masked.size, by omega⟩
  have hinside := (List.getElem?_eq_some_iff.mp (Code.classLayouts_spec hlayout).1.closes).1
  change _ < (Source.ofText text).masked.cells.length at hinside
  rw [htext, Text.length_cells, Source.masked_append, Text.size_append] at hinside
  have hbegin : p.masked.size ≤ (p ++ u).masked.size ∧
      p.masked.size < (p ++ u ++ b).masked.size := by
    simp only [Source.masked_append, Text.size_append] at hstart ⊢
    omega
  have hbehind : (p ++ u ++ b).masked.size < (p ++ (u ++ b ++ y)).masked.size := by
    rw [hsize]
    omega
  have hmoved := hmoved (by omega) j (by omega) (by omega) hclosing
  -- The range of the member grows with the part that is exchanged.
  have hstop' : (p ++ u ++ b').masked.size +
      ((p ++ (u ++ b ++ y)).masked.size - (p ++ u ++ b).masked.size) =
      (p ++ (u ++ b' ++ y)).masked.size := by
    rw [hsize, hsize, Nat.add_sub_cancel_left]
  rw [← hclosing] at hmoved
  have hread := exists_swapped htext (htext'.trans (hassoc b')) hswap hswappable hfile hd (by omega)
    hclosing fun hsealed => hswap.members_set (v := v') hbody hmoved hsealed hr hbegin.1 hbegin.2
      hbehind fun hseal => ?_
  · obtain ⟨file', d', hfile', hlength, hd', hopening', hclosing', hnode'⟩ := hread
    refine ⟨file', d', hfile', hlength, hd', memberAt_of_parts hfile' (List.mem_of_getElem? hd')
      htext' ⟨h.even.1, (hu.append hswap.even.2.2.1).append hy, h.even.2.2⟩ ?_ ?_, hnode'⟩
    · obtain ⟨r', hr', hrel⟩ := exists_getElem?_of_forall₂ hmoved.flip hr
      have heq := Source.Swap.eq_of_moved hrel hbegin.2 hbehind
      change (Code.memberRanges (Source.ofText text').masked.cells _ _)[k]? = _
      simp only [hstop'] at heq
      rw [htext', hassoc, hopening', hclosing', hr', heq]
    · obtain ⟨hlayout', hread'⟩ := layout_of_mem_classes hfile' (List.mem_of_getElem? hd')
      rw [← ClassLayout.cells_name hlayout' hread', hnode']
      exact hv'
  · simp only [hstop'] at hseal ⊢
    rw [← hassoc, Source.masked_append p, Text.size_append] at hseal ⊢
    rw [← hname]
    exact Source.member_middle hseal h.even.1 hv'

end SourceFile

end ClassRefactor
