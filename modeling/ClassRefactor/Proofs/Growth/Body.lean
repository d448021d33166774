import ClassRefactor.Proofs.Growth.Block
import ClassRefactor.Proofs.Growth.Constructor
import ClassRefactor.Proofs.Growth.Gap
import ClassRefactor.Proofs.Layout.Front

/-!
# A constructor with statements more

In front of the brace that closes the block of a constructor, assignments may take the place of
blanks. The constructor is then read with these assignments behind the statements that it had.
-/

namespace ClassRefactor

namespace Text

/-- Of two first parts of a text the shorter one is a first part of the other. -/
theorem exists_between {a b c d : Text} (h : a ++ b = c ++ d) (hle : size a ≤ size c) :
    ∃ m, c = a ++ m ∧ b = m ++ d := by
  rcases List.append_eq_append_iff.mp h with ⟨m, rfl, rfl⟩ | ⟨m, rfl, rfl⟩
  · exact ⟨m, rfl, rfl⟩
  · have hzero : size m = 0 := by
      rw [size_append] at hle
      omega
    have hnil : m = [] := by rwa [← List.isEmpty_iff, isEmpty_eq, beq_iff_eq]
    subst hnil
    exact ⟨[], by simp, by simp⟩

end Text

namespace Source

theorem Even.of_append {a b : Source} (h : (a ++ b).Even) (ha : a.Even) : b.Even := by
  simp only [Even, text_append, masked_append, Text.size_append] at h ha ⊢
  omega

/-- Of two first parts of a source the shorter one is a first part of the other. -/
theorem exists_between {a b c d : Source} (h : a ++ b = c ++ d) (ha : a.Even) (hc : c.Even)
    (hle : a.masked.size ≤ c.masked.size) : ∃ m : Source, c = a ++ m ∧ b = m ++ d ∧ m.Even := by
  obtain ⟨t, ht, hbt⟩ := Text.exists_between (congrArg Source.text h) (by rwa [ha, hc])
  obtain ⟨t', ht', hbt'⟩ := Text.exists_between (congrArg Source.masked h) hle
  have hsplit : c = a ++ ⟨t, t'⟩ := by
    cases c
    exact congrArg₂ Source.mk ht ht'
  refine ⟨⟨t, t'⟩, hsplit, ?_, (hsplit ▸ hc).of_append ha⟩
  cases b
  exact congrArg₂ Source.mk hbt hbt'

end Source

/-- A constructor of which only the body stands behind some place is read alike there but for its
body. -/
theorem CallableLayout.readConstructor_front {p z z' : Source} (hs : (p ++ z).Sound) (hp : p.Even)
    {k : CallableLayout} (hname : Code.Fits p.masked.cells k.name)
    (hparams : ∀ l ∈ k.params, l.Readable p.masked.cells) (htail : Code.Fits p.masked.cells k.tail)
    {m : Constructor} (hm : k.readConstructor (p ++ z) = .ok m) {body : BodyLayout} {b : Body}
    (hb : body.read (p ++ z') = .ok b) :
    ({ k with body } : CallableLayout).readConstructor (p ++ z') = .ok { m with body := b } := by
  have hsound := hs.left hp
  have hwithin : ∀ w, p.Within (p ++ w) 0 := Source.within_front p
  obtain ⟨params, hparamsRead⟩ := exists_mapM_eq_ok fun l hl => (hparams l hl).exists_read hsound
  have hnameRead := Source.name_eq hsound hname
  have htailRead := hsound.read htail
  have hnames : ∀ w, (p ++ w).name k.name = .ok (.ofList (p.masked.slice k.name.start k.name.stop)) :=
    fun w => by simpa using (hwithin w).name _ _ hnameRead
  have hparamss : ∀ w, k.params.mapM (ParameterLayout.read (p ++ w)) = .ok params := by
    intro w
    simpa using Refines.mapM (hwithin w).parameter k.params _ hparamsRead
  have htails : ∀ w, (p ++ w).text.read k.tail = .ok (p.text.slice k.tail.start k.tail.stop) :=
    fun w => by simpa using (hwithin w).text _ _ htailRead
  simp only [readConstructor, bind_eq_ok_iff] at hm
  obtain ⟨_, hlead, _, hname', _, hparams', _, htail', _, -, heq⟩ := hm
  rw [hnames] at hname'
  rw [hparamss] at hparams'
  rw [htails] at htail'
  obtain rfl := Except.ok.inj hname'
  obtain rfl := Except.ok.inj hparams'
  obtain rfl := Except.ok.inj htail'
  obtain rfl := Except.ok.inj heq
  simp only [readConstructor, hlead, hnames, hparamss, htails, hb, bind, Except.bind, pure,
    Except.pure]

namespace Code

/-- The statements between two positions of some code are those of its front. -/
theorem statementRanges_front (l r : Code) {start : Nat} (hstart : start ≤ l.length) :
    (l ++ r).statementRanges start l.length = l.statementRanges start l.length := by
  have hshows : (l ++ r).Shows 0 l := List.prefix_append l r
  have := hshows.statementRanges hstart (Nat.le_refl _)
  have hzero : Range.shift 0 = id := funext Range.shift_zero
  simpa [hzero] using this

theorem statementRanges_blanks {b : Code} (hb : ∀ c ∈ b, isLayoutBlank c = true) :
    b.statementRanges 0 b.length = [] := by
  rw [statementRanges, Segment.ranges, window_length, List.drop_zero,
    Segment.rangesFrom_of_blanks hb]
  rfl

section

variable {l b className : Code} {start n : Nat} {k : CallableLayout} {block : BlockLayout}
  (h : ConstructorAt (l ++ (b ++ ['}'])) className start k) (hblock : k.body = .block block)
  (hlt : block.opening < l.length) (hclosing : block.closing = (l ++ b).length)
  (hblanks : ∀ d ∈ b, isLayoutBlank d = true)
include h hblock hlt hclosing hblanks

/-- The block is open where the blanks begin. -/
theorem ConstructorAt.closeFrom_front :
    closeFrom '{' '}' 0 (l.drop (block.opening + 1)) = none ∧
      ∀ r, closeFrom '{' '}' 0 (l.drop (block.opening + 1) ++ r) =
        (closeFrom '{' '}' 0 r).map ((l.drop (block.opening + 1)).length + ·) := by
  obtain ⟨-, -, hopens, hclose, -⟩ := h.block hblock
  rw [List.getElem?_append_left hlt] at hopens
  rw [matchingClose?, drop_append_of_getElem? hopens, hclosing] at hclose
  simp only [beq_self_eq_true, if_true, Option.map_eq_some_iff] at hclose
  obtain ⟨m, hm, hmeq⟩ := hclose
  rcases closeFrom_append_cases '{' '}' 0 (l.drop (block.opening + 1)) with
    ⟨i, hi, hfound⟩ | ⟨depth, hgoes⟩
  · rw [hfound] at hm
    obtain rfl := Option.some.inj hm
    rw [List.length_drop] at hi
    rw [List.length_append] at hmeq
    omega
  · rw [hgoes, (Transparent.of_blanks hblanks).braces] at hm
    cases depth with
    | zero =>
      refine ⟨?_, hgoes⟩
      have := hgoes []
      rwa [List.append_nil] at this
    | succ depth =>
      have hnone : closeFrom '{' '}' (depth + 1) ['}'] = none := by simp [closeFrom]
      rw [hnone] at hm
      cases hm

/-- In the place of the blanks before its closing brace, a block takes further statements. -/
theorem ConstructorAt.grown (hends : l.EndsAt n)
    (hsettled : (l.statementCut (block.opening + 1)).2 = {}) {t : Code} (ht : Transparent t)
    (happosite : Apposite t) :
    ∃ block', ConstructorAt (l ++ (t ++ ['}'])) className start { k with body := .block block' } ∧
      block'.statements = block.statements ++ (t.statementRanges 0 t.length).map
        (Range.shift l.length) ∧ ∀ r ∈ block.statements, r.stop ≤ l.length := by
  obtain ⟨-, -, hopens, -, heq⟩ := h.block hblock
  obtain ⟨-, hgoes⟩ := h.closeFrom_front hblock hlt hclosing hblanks
  rw [List.getElem?_append_left hlt] at hopens
  have hclose : matchingClose? '{' '}' (l ++ (t ++ ['}'])) block.opening =
      some (l ++ t).length := by
    have hend : closeFrom '{' '}' 0 ['}'] = some 0 := rfl
    rw [matchingClose?, drop_append_of_getElem? hopens]
    simp only [beq_self_eq_true, if_true, hgoes, ht.braces, hend, Option.map_some,
      List.length_drop, List.length_append]
    congr 1
    omega
  have hstatements : ∀ {r : Code}, Apposite r →
      (l ++ (r ++ ['}'])).statementRanges (block.opening + 1) (l ++ r).length =
        l.statementRanges (block.opening + 1) l.length ++
          (r.statementRanges 0 r.length).map (Range.shift l.length) := by
    intro r hr
    have hmoved := (shows_right l r).statementRanges (Nat.zero_le _) (Nat.le_refl _)
    rw [Nat.add_zero] at hmoved
    rw [← List.append_assoc, statementRanges_front _ _ (by rw [List.length_append]; omega),
      (statementRanges_grown hends hlt hsettled hr).1, hmoved]
  have hold : block.statements = l.statementRanges (block.opening + 1) l.length := by
    rw [heq, blockLayout, hclosing]
    simp only [hstatements (apposite_blanks hblanks), statementRanges_blanks hblanks, List.map_nil,
      List.append_nil]
  refine ⟨_, h.withBlock hblock hlt hclose, ?_, ?_⟩
  · rw [hold]
    exact hstatements happosite
  · rw [hold]
    exact (statementRanges_grown hends hlt hsettled happosite).2

end

/-- What ends some code ends its last part, if a cell that is no blank stands there. -/
theorem EndsAt.right {u l : Code} {n i : Nat} (h : (u ++ l).EndsAt n) {c : Char}
    (hc : l[i]? = some c) (hsolid : isLayoutBlank c = false) : l.EndsAt (n - u.length) := by
  have hle : u.length + i ≤ n := by
    by_contra hlt
    have hmem : c ∈ (u ++ l).drop (n + 1) := by
      refine List.mem_iff_getElem?.mpr ⟨u.length + i - (n + 1), ?_⟩
      rw [List.getElem?_drop, show n + 1 + (u.length + i - (n + 1)) = u.length + i by omega,
        List.getElem?_append_right (Nat.le_add_right ..), Nat.add_sub_cancel_left, hc]
    rw [h.blanks c hmem] at hsolid
    cases hsolid
  obtain ⟨e, he, hend⟩ := h.ended
  rw [List.getElem?_append_right (by omega)] at he
  refine ⟨⟨e, he, hend⟩, fun d hd => h.blanks d ?_⟩
  rw [show n + 1 = u.length + (n - u.length + 1) by omega, ← List.drop_drop, List.drop_left]
  exact hd

/-- Where no statement is open behind the front of a member, none is open in the member there. -/
theorem statementCut_of_member {u l b r : Code} {start n : Nat} (hends : l.EndsAt n)
    (hblanks : ∀ d ∈ b, isLayoutBlank d = true) (hstart : start ≤ l.length)
    (h : (Segment.endedFrom (u ++ (l ++ b) ++ r) (u ++ (l ++ b) ++ r).afterStatementBlock
      (u.length + (l ++ b).length) {} (u.length + start) (l.drop start)).2 = {}) :
    (l.statementCut start).2 = {} := by
  have hle : l.length ≤ (l ++ b).length := by simp
  have hshows := shows_append u (l ++ b) r
  have hshift := @Segment.endedFrom_shift _ _ _ _ _ _ hshows (Nat.le_refl _)
    (fun s after hlt hafter hclose => hshows.afterStatementBlock (Nat.le_refl _) hlt hafter hclose)
    {} start (l.drop start) (by simp) ?_ ?_
  · have hclear : ({} : Segment.State).shift u.length = {} := rfl
    rw [hclear] at hshift
    rw [hshift] at h
    have hfront := @Segment.endedFrom_left l b (l ++ b).afterStatementBlock l.afterStatementBlock
      start (l ++ b).length hstart fun s after hlt _ hafter hclose =>
        afterStatementBlock_append hends (apposite_blanks hblanks) hlt hafter hclose
    rw [hfront, ← statementCut] at h
    have hnone : (l.statementCut start).2.start = none := by
      simpa [Segment.State.shift] using congrArg Segment.State.start h
    exact Segment.endedFrom_clear (fun _ => rfl) _ _ hnone
  · exact ⟨b, by rw [List.drop_append_of_le_length hstart]⟩
  · rw [List.length_drop]
    omega

/-- All ranges of a constructor fit its code. -/
theorem ConstructorAt.readable {x className : Code} {start : Nat} {k : CallableLayout}
    (h : ConstructorAt x className start k) : k.Readable x := by
  have hpos : 0 < x.length := by
    have := (List.getElem?_eq_some_iff.mp h.opens).1
    omega
  obtain ⟨-, -, hreadable⟩ := @memberLayout_spec x className ⟨0, x.length⟩ _ hpos (seam_zero _)
    (seam_length _) (fun _ hnext => by simp at hnext) h.memberLayout
  exact hreadable.shape

end Code

theorem MemberLayout.exists_constructor_of_read {s : Source} {layout : MemberLayout}
    {m : Constructor} (h : layout.read s = .ok (.constructor m)) :
    ∃ k, layout.shape = .constructor k ∧ k.readConstructor s = .ok m := by
  obtain ⟨range, signature, shape⟩ := layout
  simp only [read, bind_eq_ok_iff] at h
  obtain ⟨-, -, -, -, h⟩ := h
  cases shape with
  | constructor k =>
    obtain ⟨m', hm', heq⟩ := bind_eq_ok_iff.mp h
    cases heq
    exact ⟨k, rfl, hm'⟩
  | field f =>
    obtain ⟨_, -, heq⟩ := bind_eq_ok_iff.mp h
    cases heq
  | method k =>
    obtain ⟨_, -, heq⟩ := bind_eq_ok_iff.mp h
    cases heq
  | other =>
    obtain ⟨_, -, heq⟩ := bind_eq_ok_iff.mp h
    cases heq

namespace Source

/-- A source that is one constructor. -/
structure ConstructorAt (x : Source) (className : Code) (start : Nat) (k : CallableLayout)
    (m : Constructor) : Prop where
  found : Code.ConstructorAt x.masked.cells className start k
  read : k.readConstructor x = .ok m

variable {x : Source} {className : Code} {m : Constructor}

theorem exists_constructorAt (h : x.member className = .ok (.constructor m)) :
    ∃ start k, ConstructorAt x className start k m ∧
      (Code.memberLayout x.masked.cells className ⟨0, x.masked.cells.length⟩).shape =
        .constructor k := by
  obtain ⟨k, hshape, hread⟩ := MemberLayout.exists_constructor_of_read h
  obtain ⟨start, hfound⟩ := Code.constructorAt_of_memberLayout hshape
  exact ⟨start, k, ⟨hfound, hread⟩, hshape⟩

theorem ConstructorAt.member {start : Nat} {k : CallableLayout}
    (h : ConstructorAt x className start k m) : x.member className = .ok (.constructor m) := by
  have hsignature : start ≤ max (k.closing + 1) start := Nat.le_max_right ..
  simp only [Source.member, memberAt, h.found.memberLayout, MemberLayout.read, Range.checked,
    Nat.zero_le, hsignature, if_true, h.read, bind, Except.bind, pure, Except.pure]

section

variable {v e : Source} {b t : Text} {start n : Nat} {k : CallableLayout} {block : BlockLayout}

/-- The parts of a constructor before its block are read alike whatever follows. -/
theorem ConstructorAt.readable_front {z : Source} (h : ConstructorAt (v ++ z) className start k m)
    (hblock : k.body = .block block) (hopening : block.opening < v.masked.size) :
    Code.Fits v.masked.cells k.name ∧ (∀ l ∈ k.params, l.Readable v.masked.cells) ∧
      Code.Fits v.masked.cells k.tail := by
  have hreadable := h.found.readable
  have hfound := h.found
  rw [masked_append, Text.cells_append] at hreadable hfound
  obtain ⟨hopens, hbehind, -⟩ := hfound.block hblock
  obtain ⟨-, hordered, hcloses⟩ := Code.matchingClose?_spec hfound.closing
  have hname := hfound.name_le
  rw [← Text.length_cells] at hopening
  have hparams := hfound.parameters?_front (by omega) []
  rw [List.append_nil] at hparams
  have hget : ∀ {i : Nat}, i < v.masked.cells.length →
      (v.masked.cells ++ z.masked.cells)[i]? = v.masked.cells[i]? :=
    fun hi => List.getElem?_append_left hi
  have hparen := hfound.opens
  rw [hget (by omega)] at hparen hcloses
  refine ⟨hreadable.name.left (by omega), ?_, hreadable.tail.left (by omega)⟩
  exact (Code.parameters?_spec hordered (Code.seam_of_solid hparen (by decide)).2
    (Code.seam_of_solid hcloses (by decide)).1 hparams).2

end

end Source

/-- Assignments carry on no statement, unless one of them is to a field with the name of a word that
does. -/
theorem apposite_statements {ss : List Statement} (hss : ∀ s ∈ ss, s.Legible) {i : Code}
    (hi : Segment.Spaced (ss.map fun s => Text.cells s.render.toList) i)
    (hfree : ∀ field parameter, .assignment field parameter ∈ ss → field ∉ Code.continuations) :
    Code.Apposite i := by
  rcases cases_statements hi with hblanks | ⟨s, hs, b, t, rfl, hb⟩
  · exact Code.apposite_blanks hblanks
  · cases hss s hs with
    | @assignment target value htarget hvalue =>
      intro w hw heq
      obtain ⟨hne, hident⟩ := (Statement.isName_iff.mp htarget).1.ident
      have hcells : Text.cells (Statement.assignment target value).render.toList =
          Text.cells target.toList ++ ' ' :: Text.cells ('=' :: ' ' :: (value.toList ++ [';'])) := by
        rw [show ' ' :: Text.cells ('=' :: ' ' :: (value.toList ++ [';'])) =
          Text.cells (' ' :: '=' :: ' ' :: (value.toList ++ [';'])) from rfl, ← Text.cells_append]
        simp [Statement.render, String.toList_append]
      have hword : ∀ c ∈ Text.cells target.toList, isIdentCell c = true :=
        fun c hc => hident c (Text.mem_cells.mp hc)
      obtain ⟨d, rest, hd⟩ := List.exists_cons_of_ne_nil hne
      obtain ⟨n, hn, -⟩ := Text.exists_cells_cons d rest
      have hsolid := isLayoutBlank_eq_false_of_isIdentCell (hident d (by simp [hd]))
      have hdrop : (b ++ (Text.cells (Statement.assignment target value).render.toList ++
          t)).dropWhile isLayoutBlank =
          Text.cells (Statement.assignment target value).render.toList ++ t := by
        rw [List.dropWhile_append_of_pos hb, hcells, hd, hn]
        exact List.dropWhile_cons_of_neg (by simp [hsolid])
      rw [hdrop, hcells, List.append_assoc, List.takeWhile_append_of_pos hword, List.cons_append,
        List.takeWhile_cons_of_neg (by decide), List.append_nil] at heq
      have hascii : ∀ w ∈ Code.continuations, Text.cells w.toList = w.toList := by decide
      rw [← hascii w hw] at heq
      exact hfree target value hs (String.toList_inj.mp (Text.cells_injective heq) ▸ hw)

/-- Statements that a source begins with are read alike whatever follows. -/
theorem Statement.mapM_read_front {p z : Source} (hs : p.Sound) {rs : List Range}
    (hfits : ∀ r ∈ rs, Code.Fits p.masked.cells r) {ss : List Statement}
    (h : rs.mapM (Statement.read (p ++ z)) = .ok ss) (z' : Source) :
    rs.mapM (Statement.read (p ++ z')) = .ok ss := by
  obtain ⟨ss', hss'⟩ := exists_mapM_eq_ok fun r hr => ⟨_, Statement.read_eq hs (hfits r hr)⟩
  have hboth : ∀ w, rs.mapM (Statement.read (p ++ w)) = .ok ss' := by
    intro w
    have hread := Refines.mapM (p.within_front w).statement rs _ hss'
    have hzero : Range.shift 0 = id := funext Range.shift_zero
    rwa [hzero, List.map_id] at hread
  rw [hboth] at h ⊢
  exact h

/-- Written statements are read where they are added to a source. -/
theorem Statement.mapM_read_added {p q : Source} (hp : p.Even) {t : Text} (ht : (Source.plain t).Sound)
    {ss : List Statement} (hss : ∀ s ∈ ss, s.Legible)
    (hspaced : Segment.Spaced (ss.map fun s => Text.cells s.render.toList) t.cells) :
    ((Code.statementRanges t.cells 0 t.cells.length).map (Range.shift p.masked.size)).mapM
      (Statement.read (p ++ Source.plain t ++ q)) = .ok ss := by
  obtain ⟨-, hfits⟩ := Code.statementRanges_spec (Nat.zero_le t.cells.length) (Code.seam_zero _)
    (Code.seam_length _)
  have hshows : Code.Shows t.cells 0 t.cells := List.prefix_rfl
  have hstands := Code.stands_statementRanges hshows hspaced fun m hm => by
    obtain ⟨s, hs, rfl⟩ := List.mem_map.mp hm
    exact (hss s hs).simple
  rw [Nat.zero_add] at hstands
  exact Refines.mapM (Source.within_middle hp (Source.plain t) q).statement _ _
    (mapM_read_of_stands ht hss hstands hfits)

namespace Source

variable {className : Code} {v e : Source} {b t : Text} {start n : Nat} {k : CallableLayout}
  {block : BlockLayout} {m : Constructor}

/-- In the place of the blanks before its closing brace, a constructor takes further statements. -/
theorem ConstructorAt.grown (h : ConstructorAt (v ++ plain b ++ e) className start k m)
    (hswap : Swap v (plain b) (plain t) e) (hbrace : e.masked.cells = ['}'])
    (hblock : k.body = .block block) (hopening : block.opening < v.masked.size)
    (hclosing : block.closing = (v ++ plain b).masked.size)
    (hblanks : ∀ d ∈ b.cells, isLayoutBlank d = true) (hends : Code.EndsAt v.masked.cells n)
    (hsettled : (Code.statementCut v.masked.cells (block.opening + 1)).2 = {})
    (ht : (plain t).Sound) {added : List Statement} (hadded : ∀ s ∈ added, s.Legible)
    (hspaced : Segment.Spaced (added.map fun s => Text.cells s.render.toList) t.cells)
    (happosite : Code.Apposite t.cells) :
    ∃ block' ss, m.body = .block ss ∧ ConstructorAt (v ++ plain t ++ e) className start
      { k with body := .block block' } { m with body := .block (ss ++ added) } := by
  have hv := hswap.even.1
  have hsound := hswap.sound
  have hfound := h.found
  have hcells : ∀ l : Text, (v ++ plain l ++ e).masked.cells =
      v.masked.cells ++ (l.cells ++ ['}']) := fun l => by
    rw [cells_masked, hbrace, List.append_assoc]
    rfl
  rw [hcells] at hfound
  obtain ⟨block', hfound', hstatements, hbefore⟩ := hfound.grown hblock
    (by rwa [Text.length_cells]) (by rw [hclosing]; simp [plain]) hblanks hends hsettled
    (transparent_statements hadded hspaced) happosite
  rw [Text.length_cells] at hstatements
  have hreadable := h.found.readable
  rw [append_assoc] at h hsound hreadable
  obtain ⟨hname, hparams, htail⟩ := h.readable_front hblock hopening
  have hfits := hreadable.body
  rw [hblock, masked_append, Text.cells_append] at hfits
  have hbody := h.read
  simp only [CallableLayout.readConstructor, bind_eq_ok_iff] at hbody
  obtain ⟨_, -, _, -, _, -, _, -, body, hbody, heq⟩ := hbody
  obtain rfl := Except.ok.inj heq
  rw [hblock, BodyLayout.read] at hbody
  obtain ⟨ss, hss, heq⟩ := bind_eq_ok_iff.mp hbody
  obtain rfl := Except.ok.inj heq
  refine ⟨block', ss, rfl, by rwa [hcells], ?_⟩
  have hold := Statement.mapM_read_front (hsound.left hv)
    (fun r hr => (hfits r hr).left (hbefore r hr)) hss (plain t ++ e)
  have hnew := Statement.mapM_read_added (q := e) hv ht hadded hspaced
  rw [append_assoc]
  refine CallableLayout.readConstructor_front hsound hv hname hparams htail h.read ?_
  rw [append_assoc] at hnew
  simp only [BodyLayout.read, hstatements, List.mapM_append, hold, hnew, bind, Except.bind, pure,
    Except.pure]

end Source

end ClassRefactor
