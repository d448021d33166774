import ClassRefactor.Proofs.Growth.Body
import ClassRefactor.Proofs.Growth.Insertion
import ClassRefactor.Proofs.Growth.Listing

/-!
# A constructor with parameters more

Behind the parameters of a constructor, or between its empty parentheses, further parameters may be
written. The constructor is then read with these behind the ones that it had.
-/

namespace ClassRefactor

namespace Code

/-! What is put between the parentheses. -/

section

variable {s s' b : Code} (hs : ∀ c ∈ s, isLayoutBlank c = true)
  (hs' : ∀ c ∈ s', isLayoutBlank c = true) {added : List Parameter}
  (hadded : ∀ p ∈ added, p.Legible)
include hs hs' hadded

theorem insertable_addedCells (hb : ∀ c ∈ b, isLayoutBlank c = true) :
    Insertable (addedCells s s' added) b := by
  refine ⟨closed_addedCells hs hs' hadded, ?_, mute_addedCells hs hs' hb hadded⟩
  cases added with
  | nil => exact unassigned_blanks (by simp [addedCells])
  | cons p added =>
    have hcells : addedCells s s' (p :: added) =
        s ++ (',' :: (s' ++ Text.cells p.render.toList) ++ addedCells s s' added) := by
      simp [addedCells]
    rw [hcells]
    refine (unassigned_blanks hs).append fun c hc => ?_
    rw [List.cons_append, List.dropWhile_cons_of_neg (by decide)] at hc
    rw [← Option.some.inj hc]
    decide

end

/-- No name goes on into added parameters. -/
theorem halting_addedCells {s s' : Code} (hs : ∀ c ∈ s, isLayoutBlank c = true)
    {added : List Parameter} (hne : added ≠ []) (r : Code) :
    Halting (addedCells s s' added ++ r) := by
  obtain ⟨p, added, rfl⟩ := List.exists_cons_of_ne_nil hne
  refine ⟨s, ',', s' ++ Text.cells p.render.toList ++ addedCells s s' added ++ r, ?_, hs, by decide,
    by decide, by decide⟩
  simp [addedCells]

/-- Added parameters begin with blanks or a comma, and end with a name. -/
theorem ends_addedCells {s s' : Code} (hs : ∀ c ∈ s, isLayoutBlank c = true)
    {added : List Parameter} (hadded : ∀ p ∈ added, p.Legible) (hne : added ≠ []) :
    (∃ c, (addedCells s s' added).head? = some c ∧ (isLayoutBlank c = true ∨ c = ',')) ∧
      ∃ c, (addedCells s s' added).getLast? = some c ∧ isLayoutBlank c = false := by
  obtain ⟨init, p, rfl⟩ := (List.eq_nil_or_concat added).resolve_left hne
  rw [List.concat_eq_append] at hadded ⊢
  obtain ⟨c, hc, hident⟩ := (hadded p (by simp)).last
  have hlast : addedCells s s' (init ++ [p]) =
      addedCells s s' init ++ (s ++ ',' :: s') ++ Text.cells p.render.toList := by
    simp [addedCells]
  constructor
  · have hstart : ∃ r, addedCells s s' (init ++ [p]) = s ++ ',' :: r := by
      cases init <;> exact ⟨_, by simp [addedCells]; rfl⟩
    obtain ⟨r, hr⟩ := hstart
    rw [hr]
    cases s with
    | nil => exact ⟨',', rfl, .inr rfl⟩
    | cons d s => exact ⟨d, rfl, .inl (hs d List.mem_cons_self)⟩
  · refine ⟨c, ?_, isLayoutBlank_eq_false_of_isIdentCell hident⟩
    rw [hlast, List.getLast?_append, hc]
    rfl

theorem insertable_renderParameters {added : List Parameter} (hadded : ∀ p ∈ added, p.Legible) :
    Insertable (Text.cells (renderParameters added).toList) [] := by
  refine ⟨closed_renderParameters hadded, ?_, mute_renderParameters hadded⟩
  cases added with
  | nil => exact unassigned_blanks (by simp [renderParameters, joinWith])
  | cons p added =>
    have hp := hadded p List.mem_cons_self
    obtain ⟨c, hc, -⟩ := hp.head
    obtain ⟨hblank, -, hne, -⟩ := hp.head_ne hc
    obtain ⟨rest, hrest⟩ := List.head?_eq_some_iff.mp hc
    intro d hd
    rw [cells_renderParameters, hrest, List.cons_append,
      List.dropWhile_cons_of_neg (by simp [hblank])] at hd
    rw [← Option.some.inj hd]
    exact hne

/-! Constructors with other parameters. -/

/-- What is put between the parentheses of a constructor leaves all but its parameters as it is. -/
theorem ConstructorAt.withParams {u w t className : Code} {start : Nat} {k : CallableLayout}
    (h : ConstructorAt (u ++ w) className start k) (hopening : k.opening < u.length)
    (hclosing : u.length ≤ k.closing) (ht : stackAfter [] t = some []) {params : List ParameterLayout}
    (hparams : Code.parameters? (u ++ (t ++ w)) k.opening (k.closing + t.length) = some params) :
    ∃ tail body, k.tail = Range.shift u.length tail ∧ k.body = BodyLayout.shift u.length body ∧
      ConstructorAt (u ++ (t ++ w)) className start
        { k with
          closing := k.closing + t.length, params, tail := tail.shift (u ++ t).length
          body := body.shift (u ++ t).length } := by
  obtain ⟨n, hn⟩ := Nat.exists_eq_add_of_le hclosing
  have hold := shows_right u w
  have hnew := shows_right (u ++ t) w
  have hassoc : u ++ t ++ w = u ++ (t ++ w) := List.append_assoc ..
  have hsealed : ∀ v : Code, (v ++ w).Sealed (v.length + w.length) := fun v => by
    rw [← List.length_append]
    exact sealed_length _
  -- The end of the parameters moves.
  have hclose : matchingClose? '(' ')' (u ++ (t ++ w)) k.opening = some (k.closing + t.length) := by
    have hnil : ∀ depth rest, closeFrom '(' ')' depth (([] : Code) ++ rest) =
        (closeFrom '(' ')' depth rest).map (([] : Code).length + ·) := by simp
    have hmoved := matchingClose?_moved (c := w) hnil
      (fun depth rest => closeFrom_nested ht (.inl ⟨rfl, rfl⟩) depth rest)
      (.inl ⟨hopening, rfl⟩ : Moved u [] t k.opening k.opening)
    rw [List.append_nil, h.closing, hassoc] at hmoved
    cases hfound : matchingClose? '(' ')' (u ++ (t ++ w)) k.opening with
    | none =>
      rw [hfound] at hmoved
      cases hmoved
    | some closing =>
      rw [hfound] at hmoved
      cases hmoved with
      | some hmoved =>
        rcases hmoved with ⟨hlt, -⟩ | ⟨q, hq, rfl⟩
        · omega
        · rw [List.append_nil] at hq
          rw [hq, List.length_append]
          congr 1
          omega
  -- Behind it, the body is found where it was.
  have hdrop : ∀ (v : Code) (i : Nat), (v ++ w).drop (v.length + i) = w.drop i := fun v i => by
    rw [← List.drop_drop, List.drop_left]
  have hbodyStart := h.bodyStart
  rw [hn, List.length_append, Nat.add_assoc, hdrop,
    hold.bodyStartFrom (hsealed u) (Nat.le_refl _) (window_length w (n + 1))] at hbodyStart
  obtain ⟨pos, hpos, hstop⟩ := Option.map_eq_some_iff.mp hbodyStart
  have hbody := h.body
  rw [← hstop, List.length_append, hold.body? (Nat.le_refl _)] at hbody
  obtain ⟨body, hbody, hshift⟩ := Option.map_eq_some_iff.mp hbody
  have hhead := h.toHeaded.front hopening (t ++ w)
  refine ⟨⟨n + 1, pos⟩, body, ?_, hshift.symm, ?_⟩
  · rw [show k.tail = ⟨k.tail.start, k.tail.stop⟩ from rfl, h.tail, ← hstop, hn]
    rfl
  · refine ⟨⟨hhead.attributes, hhead.decider, hhead.undeclared, hhead.opens, hhead.name,
      hhead.no_tilde, hhead.lead, hhead.modifiers, hhead.result, hhead.white, hhead.named⟩, hclose,
      hparams, ?_, ?_, ?_⟩
    · simp only [Range.shift, hn, List.length_append]
      omega
    · have hstart : k.closing + t.length + 1 = (u ++ t).length + (n + 1) := by
        rw [hn, List.length_append]
        omega
      simp only [hstart]
      rw [← hassoc, hdrop, List.length_append,
        hnew.bodyStartFrom (hsealed (u ++ t)) (Nat.le_refl _) (window_length w (n + 1)), hpos]
      rfl
    · change Code.body? _ ((u ++ t).length + pos) _ = some (body.shift (u ++ t).length)
      rw [← hassoc, @List.length_append _ (u ++ t) w, hnew.body? (Nat.le_refl _), hbody]
      rfl

/-- What stands in a part of some code stands in it wherever the part is. -/
theorem Stands.middle {a m b l : Code} {r : Range} (h : Stands (a ++ m ++ b) (r.shift a.length) l)
    (hr : r.stop ≤ m.length) : Stands m r l := by
  have hstop : r.stop = r.start + l.length := by
    have := h.stop
    simp only [Range.shift] at this
    omega
  refine ⟨?_, hstop⟩
  have hshows : l <+: (a ++ m ++ b).drop (a.length + r.start) := h.shows
  rw [List.append_assoc, ← List.drop_drop, List.drop_left,
    List.drop_append_of_le_length (by omega)] at hshows
  exact List.prefix_of_prefix_length_le hshows (List.prefix_append _ b)
    (by rw [List.length_drop]; omega)

theorem exists_shift {r : Range} {n : Nat} (h : n ≤ r.start) (h' : n ≤ r.stop) :
    ∃ s : Range, r = s.shift n :=
  ⟨⟨r.start - n, r.stop - n⟩, by simp [Range.shift, h, h']⟩

/-- A parameter that is written in some part of a source is read there. -/
theorem TellsWithin.read {u w : Source} {t : Text} (hu : u.Even)
    (hs : (u ++ Source.plain t ++ w).Sound) {l : ParameterLayout} {p : Parameter}
    (h : TellsWithin (u ++ Source.plain t ++ w).masked.cells u.masked.size
      (u ++ Source.plain t).masked.size l p)
    (hp : p.Legible) (hl : l.Readable (u ++ Source.plain t ++ w).masked.cells) :
    l.read (u ++ Source.plain t ++ w) = .ok p := by
  obtain ⟨⟨hmodifiers, hdefault, htype, hname, hfirst, hmiddle, hlast⟩, hstart, hstop⟩ := h
  obtain ⟨hrange, hfitsType, hfitsName, -⟩ := hl
  have htypeStop := htype.stop
  have hnameStop := hname.stop
  have hordered := hrange.1
  rw [← Text.length_cells] at hstart hstop
  rw [Source.masked_append, Text.cells_append, List.length_append] at hstop
  rw [Source.cells_masked] at htype hname hrange hfitsType hfitsName
  obtain ⟨range, modifiers, type, name, default⟩ := l
  dsimp only at *
  obtain ⟨range, rfl⟩ := exists_shift (r := range) hstart (by omega)
  obtain ⟨type, rfl⟩ := exists_shift (r := type) (n := u.masked.cells.length) (by omega) (by omega)
  obtain ⟨name, rfl⟩ := exists_shift (r := name) (n := u.masked.cells.length) (by omega) (by omega)
  dsimp only [Range.shift] at hfirst hmiddle hlast hstop htypeStop hnameStop
  have htells : ParameterLayout.Tells t.cells ⟨range, modifiers, type, name, none⟩ p :=
    ⟨hmodifiers, rfl, htype.middle (by omega), hname.middle (by omega), by dsimp only; omega⟩
  have hreadable : ParameterLayout.Readable t.cells ⟨range, modifiers, type, name, none⟩ :=
    ⟨hrange.middle (by omega), hfitsType.middle (by omega), hfitsName.middle (by omega),
      by simp [FitsIfAny]⟩
  have hread := htells.read hp hreadable (hs.middle hu (Source.even_plain t))
  have hmoved := (Source.within_middle hu (Source.plain t) w).parameter _ _ hread
  rw [hdefault, Text.length_cells]
  exact hmoved

end Code

theorem Code.Fits.right {l r : Code} {s : Range} (h : Fits (l ++ r) (s.shift l.length)) : Fits r s := by
  have hle := h.2.2.le
  rw [← List.append_nil (l ++ r)] at h
  refine h.middle ?_
  rw [List.length_append] at hle
  exact Nat.le_of_add_le_add_left hle

theorem BodyLayout.Readable.right {l r : Code} {body : BodyLayout}
    (h : (body.shift l.length).Readable (l ++ r)) : body.Readable r := by
  cases body with
  | block b => exact fun s hs => (h (s.shift l.length) (List.mem_map_of_mem hs)).right
  | expression s => exact Code.Fits.right h
  | absent => trivial

/-- A constructor with something put between its parameters and its tail is read alike there but for
what is put there. -/
theorem CallableLayout.readConstructor_between {u v w : Source} (hs : (u ++ w).Sound) (hu : u.Even)
    (hv : v.Even) (hw : w.Even) {k : CallableLayout} (hname : Code.Fits u.masked.cells k.name)
    (hparams : ∀ l ∈ k.params, l.Readable u.masked.cells) {tail : Range} {body : BodyLayout}
    (htail : k.tail = tail.shift u.masked.size) (hbody : k.body = body.shift u.masked.size)
    (hfitsTail : Code.Fits w.masked.cells tail) (hfitsBody : body.Readable w.masked.cells)
    {m : Constructor} (hm : k.readConstructor (u ++ w) = .ok m) {ls : List ParameterLayout}
    {added : List Parameter} (hls : ls.mapM (ParameterLayout.read (u ++ v ++ w)) = .ok added)
    (closing : Nat) :
    ({ k with
        closing, params := k.params ++ ls, tail := tail.shift (u ++ v).masked.size
        body := body.shift (u ++ v).masked.size } : CallableLayout).readConstructor (u ++ v ++ w) =
      .ok { m with parameters := m.parameters ++ added } := by
  have hsound := hs.left hu
  have hsoundTail := hs.right hu hw
  have hfront : ∀ z, u.Within (u ++ z) 0 := u.within_front
  have hback : ∀ {z : Source}, z.Even → w.Within (z ++ w) z.masked.size := by
    intro z hz
    have := Source.within_middle hz w Source.empty
    rwa [Source.append_empty] at this
  obtain ⟨params, hparamsRead⟩ := exists_mapM_eq_ok fun l hl => (hparams l hl).exists_read hsound
  obtain ⟨b, hbodyRead, -⟩ := hfitsBody.exists_read hsoundTail
  have hnames : ∀ z, (u ++ z).name k.name = .ok (.ofList (u.masked.slice k.name.start k.name.stop)) :=
    fun z => by simpa using (hfront z).name _ _ (Source.name_eq hsound hname)
  have hparamss : ∀ z, k.params.mapM (ParameterLayout.read (u ++ z)) = .ok params := by
    intro z
    simpa using Refines.mapM (hfront z).parameter k.params _ hparamsRead
  have htails : ∀ {z : Source}, z.Even → (z ++ w).text.read (tail.shift z.masked.size) =
      .ok (w.text.slice tail.start tail.stop) :=
    fun hz => (hback hz).text _ _ (hsoundTail.read hfitsTail)
  have hbodies : ∀ {z : Source}, z.Even → (body.shift z.masked.size).read (z ++ w) = .ok b :=
    fun hz => (hback hz).body _ _ hbodyRead
  simp only [readConstructor, bind_eq_ok_iff, htail, hbody] at hm
  obtain ⟨_, hlead, _, hname', _, hparams', _, htail', _, hbody', heq⟩ := hm
  rw [hnames] at hname'
  rw [hparamss] at hparams'
  rw [htails hu] at htail'
  rw [hbodies hu] at hbody'
  obtain rfl := Except.ok.inj hname'
  obtain rfl := Except.ok.inj hparams'
  obtain rfl := Except.ok.inj htail'
  obtain rfl := Except.ok.inj hbody'
  obtain rfl := Except.ok.inj heq
  have hall : (k.params ++ ls).mapM (ParameterLayout.read (u ++ v ++ w)) = .ok (params ++ added) := by
    have hfirst := hparamss (v ++ w)
    rw [← Source.append_assoc] at hfirst
    simp only [List.mapM_append, hfirst, hls, bind, Except.bind, pure, Except.pure]
  have hnameRead := hnames (v ++ w)
  rw [← Source.append_assoc] at hnameRead
  simp only [readConstructor, hlead, hnameRead, hall, htails (hu.append hv), hbodies (hu.append hv),
    bind, Except.bind, pure, Except.pure]

namespace Source

/-- The parts of a constructor around the end of its parameters. -/
structure ParameterSeam (u w : Source) (k : CallableLayout) : Prop where
  even : u.Even ∧ w.Even
  opening : k.opening < u.masked.size
  closing : u.masked.size ≤ k.closing
  blanks : ∀ c ∈ Code.window (u ++ w).masked.cells u.masked.size k.closing, isLayoutBlank c = true

variable {u w : Source} {className : Code} {start : Nat} {k : CallableLayout} {m : Constructor}
  {t : Text} {added : List Parameter} {ls : List ParameterLayout}

/-- Behind the parameters stand blanks and the closing parenthesis. -/
theorem ParameterSeam.exists_paren (h : ParameterSeam u w k)
    (hclose : (u ++ w).masked.cells[k.closing]? = some ')') :
    ∃ b rest, w.masked.cells = b ++ ')' :: rest ∧ (∀ c ∈ b, isLayoutBlank c = true) ∧
      u.masked.size + b.length = k.closing := by
  have hle := h.closing
  have hblanks := h.blanks
  have hlt := (List.getElem?_eq_some_iff.mp hclose).1
  rw [masked_append, Text.cells_append] at hclose hlt hblanks
  rw [← Text.length_cells] at hle hblanks ⊢
  obtain ⟨n, hn⟩ := Nat.exists_eq_add_of_le hle
  rw [hn] at hclose hlt hblanks ⊢
  rw [List.length_append] at hlt
  rw [List.getElem?_append_right (Nat.le_add_right ..), Nat.add_sub_cancel_left] at hclose
  rw [Code.window, List.drop_left, Nat.add_sub_cancel_left] at hblanks
  have hdrop : w.masked.cells.drop n = ')' :: w.masked.cells.drop (n + 1) := by
    rw [List.drop_eq_getElem_cons (by omega), (List.getElem?_eq_some_iff.mp hclose).2]
  refine ⟨w.masked.cells.take n, w.masked.cells.drop (n + 1), ?_, hblanks, ?_⟩
  · rw [← hdrop, List.take_append_drop]
  · rw [List.length_take_of_le (by omega)]

/-- The part of a constructor up to the end of its last parameter ends with a cell that is no blank,
and nothing but blanks stands from there to the parenthesis. -/
theorem ConstructorAt.parameterSeam (h : ConstructorAt (u ++ w) className start k m)
    (heven : u.Even ∧ w.Even) {last : ParameterLayout} (hlast : k.params.getLast? = some last)
    (hcut : u.masked.size = last.range.stop) :
    ParameterSeam u w k ∧ ∃ e, u.masked.cells.getLast? = some e ∧ isLayoutBlank e = false := by
  obtain ⟨-, hordered, hclose⟩ := Code.matchingClose?_spec h.found.closing
  have hinside := (List.getElem?_eq_some_iff.mp hclose).1
  have hparams := h.found.params
  have hmem := List.mem_of_getLast? hlast
  obtain ⟨hlaid, -⟩ := Code.parameters?_spec hordered
    (Code.seam_of_solid h.found.opens (by decide)).2 (Code.seam_of_solid hclose (by decide)).1 hparams
  obtain ⟨hfrom, hwide, hto⟩ := hlaid.within last.range (List.mem_map_of_mem hmem)
  refine ⟨⟨heven, by omega, by omega, fun c hc => ?_⟩, ?_⟩
  · obtain ⟨n, hn⟩ := List.mem_iff_getElem?.mp hc
    have hlt := (List.getElem?_eq_some_iff.mp hn).1
    rw [Code.length_window_of_le (Nat.le_of_lt hinside)] at hlt
    obtain ⟨e, he, hblank⟩ := Code.isLayoutBlank_of_parameters? (i := u.masked.size + n) hordered
      (Nat.le_of_lt hinside) hparams hlast (by omega) (by omega)
    rw [Code.getElem?_window_of_lt (by omega), he] at hn
    exact Option.some.inj hn ▸ hblank
  · obtain ⟨e, he, hsolid⟩ := Code.solid_of_parameters? hordered (Nat.le_of_lt hinside) hparams hmem
      hwide
    rw [masked_append, Text.cells_append,
      List.getElem?_append_left (by rw [Text.length_cells]; omega)] at he
    exact ⟨e, by rw [List.getLast?_eq_getElem?, Text.length_cells, hcut, he], hsolid⟩

/-- A constructor is read alike but for its parameters when further ones are put behind them. -/
theorem ConstructorAt.withParams (h : ConstructorAt (u ++ w) className start k m)
    (hseam : ParameterSeam u w k) (hsound : (u ++ w).Sound) (hsound' : (u ++ plain t ++ w).Sound)
    (hold : ∀ l ∈ k.params, l.Readable u.masked.cells) (ht : Code.stackAfter [] t.cells = some [])
    (hls : Code.parameters? (u ++ plain t ++ w).masked.cells k.opening (u ++ plain t).masked.size =
      some (k.params ++ ls))
    (htells : List.Forall₂ (Code.TellsWithin (u ++ plain t ++ w).masked.cells u.masked.size
      (u ++ plain t).masked.size) ls added)
    (hadded : ∀ p ∈ added, p.Legible) :
    ∃ k', ConstructorAt (u ++ plain t ++ w) className start k'
      { m with parameters := m.parameters ++ added } := by
  obtain ⟨⟨hu, hw⟩, hopening, hclosing, hblanks⟩ := hseam
  have hfound := h.found
  have hreadable := hfound.readable
  have hinside := (List.getElem?_eq_some_iff.mp (Code.matchingClose?_spec hfound.closing).2.2).1
  have hcells : ∀ z : Source, (u ++ z ++ w).masked.cells =
      u.masked.cells ++ (z.masked.cells ++ w.masked.cells) := fun z => by
    rw [cells_masked, List.append_assoc]
  rw [hcells] at hls htells
  rw [masked_append, Text.cells_append] at hfound hreadable hinside hblanks
  rw [← Text.length_cells] at hopening hclosing hblanks htells
  -- The blanks behind the parameters stay behind them.
  have hparams : Code.parameters? (u.masked.cells ++ ((plain t).masked.cells ++ w.masked.cells))
      k.opening (k.closing + t.cells.length) = some (k.params ++ ls) := by
    rw [← hls, masked_append, Text.size_append, ← Text.length_cells, ← Text.length_cells]
    obtain ⟨n, hn⟩ := Nat.exists_eq_add_of_le hclosing
    rw [List.length_append, hn] at hinside
    have hbehind : ∀ z : Code, (z ++ w.masked.cells).window z.length (z.length + n) =
        w.masked.cells.take n := fun z => by
      rw [Code.window, List.drop_left, Nat.add_sub_cancel_left]
    have hwindow := hbehind (u.masked.cells ++ (plain t).masked.cells)
    rw [List.append_assoc, List.length_append] at hwindow
    rw [hn, hbehind] at hblanks
    have hstop : k.closing + t.cells.length =
        u.masked.cells.length + (plain t).masked.cells.length + n := by
      rw [hn]
      exact Nat.add_right_comm ..
    rw [hstop]
    refine Code.parameters?_blanks (by omega) (by omega) ?_ (hwindow ▸ hblanks)
    simp only [List.length_append]
    omega
  obtain ⟨tail, body, htail, hbody, hnew⟩ := hfound.withParams hopening hclosing ht hparams
  have hadd : ls.mapM (ParameterLayout.read (u ++ plain t ++ w)) = .ok added := by
    rw [mapM_eq_ok_iff]
    have hlegible := forall₂_imp_of_mem htells fun l p hp hl => And.intro hl (hadded p hp)
    refine (forall₂_imp_of_mem hlegible.flip fun p l hl hp => ?_).flip
    have hreads : l.Readable (u ++ plain t ++ w).masked.cells := by
      rw [hcells]
      exact hnew.readable.params l (List.mem_append_right _ hl)
    rw [← hcells, Text.length_cells] at hp
    exact hp.1.read hu hsound' hp.2 hreads
  refine ⟨_, by rw [hcells]; exact hnew, ?_⟩
  have hname := hfound.name_le
  have hfitsTail := hreadable.tail
  have hfitsBody := hreadable.body
  rw [htail] at hfitsTail
  rw [hbody] at hfitsBody
  rw [Text.length_cells] at htail hbody
  have hsize : (u.masked.cells ++ (plain t).masked.cells).length = (u ++ plain t).masked.size := by
    rw [List.length_append, Text.length_cells, Text.length_cells, masked_append, Text.size_append]
  change ({ k with
    closing := _, params := _, tail := tail.shift (u.masked.cells ++ (plain t).masked.cells).length
    body := body.shift (u.masked.cells ++ (plain t).masked.cells).length } :
      CallableLayout).readConstructor _ = _
  rw [hsize]
  exact CallableLayout.readConstructor_between hsound hu (even_plain t) hw
    (hreadable.name.left (by omega)) hold htail hbody hfitsTail.right hfitsBody.right h.read hadd _

end Source

end ClassRefactor
