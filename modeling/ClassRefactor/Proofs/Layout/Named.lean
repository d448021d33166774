import ClassRefactor.Proofs.Code.Word
import ClassRefactor.Proofs.Layout.Lead
import ClassRefactor.Proofs.Layout.Member
import ClassRefactor.Proofs.Layout.Nest

/-!
# Methods from their names on

The layout of a method is made of what stands before its name and of what follows from the name on.
Each of the two is found without regard to the other, so a method keeps the layout of what follows
its name when something else is put before it.
-/

namespace ClassRefactor.Code

theorem isInert_of_isNameCell {c : Char} (h : isNameCell c = true) : isInert c = true := by
  simp only [isNameCell, Bool.or_eq_true, beq_iff_eq] at h
  rcases h with h | rfl
  · exact isInert_of_isIdentCell h
  · decide

theorem isInert_of_isLayoutBlank {c : Char} (h : isLayoutBlank c = true) : isInert c = true :=
  isInert_of_isWhite (isWhite_of_isLayoutBlank h)

/-- Between a `<` and the `>` that closes it, found from behind, no cell decides the kind of a
member. -/
theorem passAfter_reverse {depth n : Nat} {l : Code} (h : closeFrom '>' '<' depth l = some n) :
    passAfter 1 (l.take n).reverse = some (depth + 1) := by
  induction l generalizing depth n with
  | nil => cases h
  | cons c l ih =>
    have hnext : ∀ {d : Nat}, (closeFrom '>' '<' d l).map (· + 1) = some n →
        passAfter 1 ((c :: l).take n).reverse = passAfter (d + 1) [c] := by
      intro d hd
      obtain ⟨k, hk, rfl⟩ := Option.map_eq_some_iff.mp hd
      rw [List.take_succ_cons, List.reverse_cons, passAfter_append, ih hk, Option.bind_some]
    rw [closeFrom.eq_def] at h
    simp only at h
    split at h
    · rename_i hc
      rw [hnext h, beq_iff_eq.mp hc]
      rfl
    · rename_i hgreater
      split at h
      · rename_i hc
        cases depth with
        | zero =>
          obtain rfl := Option.some.inj h
          rfl
        | succ depth =>
          rw [hnext h, beq_iff_eq.mp hc]
          rfl
      · rename_i hless
        rw [hnext h]
        simp [passAfter, hgreater, hless]

theorem window_zero (code : Code) (stop : Nat) : code.window 0 stop = code.take stop := by
  rw [window, List.drop_zero, Nat.sub_zero]

/-- Blanks stand between a position and where the code before it is trimmed to. -/
theorem exists_trimBlanks {code : Code} {stop : Nat} (hstop : stop ≤ code.length) :
    ∃ b, code.take stop = code.take (code.trimBlanks 0 stop) ++ b ∧
      ∀ c ∈ b, isLayoutBlank c = true := by
  have hle : code.trimBlanks 0 stop ≤ stop := Nat.sub_le ..
  refine ⟨(code.take stop).drop (code.trimBlanks 0 stop), ?_, fun c hc => ?_⟩
  · have hsplit := List.take_append_drop (code.trimBlanks 0 stop) (code.take stop)
    rw [List.take_take, Nat.min_eq_left hle] at hsplit
    exact hsplit.symm
  · obtain ⟨i, hi⟩ := List.mem_iff_getElem?.mp hc
    rw [List.getElem?_drop, List.getElem?_take] at hi
    split at hi
    · rename_i hlt
      obtain ⟨d, hd, hblank⟩ := (runBack_spec isLayoutBlank (Nat.zero_le stop) hstop).2.1
        (code.trimBlanks 0 stop + i) (Nat.le_add_right ..) hlt
      rw [hi] at hd
      rwa [← Option.some.inj hd] at hblank
    · cases hi

/-- A name and its type parameters decide nothing about the kind of a member. -/
theorem passAfter_named {y : Code} {o e : Nat} {typeParams : Option Range} (ho : o ≤ y.length)
    (h : y.callableName? 0 o = some (⟨0, e⟩, typeParams)) : passAfter 0 (y.take o) = some 0 := by
  obtain ⟨width, hwidth, -, hzero, hcases⟩ := callableName?_eq_some_iff.mp h
  simp only at hwidth hzero hcases
  have hle : e ≤ o := (callableName?_stop_le h).2
  have hname : passAfter 0 (y.take e) = some 0 := by
    rw [window_zero] at hwidth
    have hlen : (y.take e).length = e := List.length_take_of_le (by omega)
    have := trailing_le isNameCell (y.take e)
    exact passAfter_of_isInert
      (fun c hc => isInert_of_isNameCell (all_of_trailing_eq (by omega) c hc)) 0
  have hblanks : ∀ {b : Code}, (∀ c ∈ b, isLayoutBlank c = true) → passAfter 0 b = some 0 :=
    fun hb => passAfter_of_isInert (fun c hc => isInert_of_isLayoutBlank (hb c hc)) 0
  have htrim : y.trimBlanks 0 o ≤ o := Nat.sub_le ..
  obtain ⟨b, hb, hblank⟩ := exists_trimBlanks ho
  rw [hb, passAfter_append]
  rcases hcases with ⟨-, rfl, -⟩ | ⟨n, hpos, hangle, hn, rfl, -⟩
  · rw [hname, Option.bind_some, hblanks hblank]
  · -- From behind: the `>`, what it closes, the `<`, and the name with blanks after it.
    generalize y.trimBlanks 0 o = stop at *
    have hlen : (y.take stop).length = stop := List.length_take_of_le (by omega)
    have hlast : (y.take stop).getLast? = some '>' := by
      rw [List.getLast?_eq_getElem?, hlen, List.getElem?_take_of_lt (by omega), hangle]
    obtain ⟨front, hfront⟩ := List.getLast?_eq_some_iff.mp hlast
    have hfrontLen : front.length + 1 = stop := by
      rw [← hlen, hfront, List.length_append]
      rfl
    rw [window_zero, hfront, List.reverse_append] at hn
    obtain ⟨k, hk, rfl⟩ : ∃ k, closeFrom '>' '<' 0 front.reverse = some k ∧ 0 + 1 + k = n :=
      Option.map_eq_some_iff.mp hn
    obtain ⟨hlt, hless⟩ := List.getElem?_eq_some_iff.mp (closeFrom_spec hk)
    have hsplit : front = (front.reverse.drop (k + 1)).reverse ++
        '<' :: (front.reverse.take k).reverse := by
      have := congrArg List.reverse (List.take_append_drop k front.reverse)
      rw [List.drop_eq_getElem_cons hlt, hless, List.reverse_reverse] at this
      simpa using this.symm
    have hstart : y.take (stop - 1 - (0 + 1 + k)) = (front.reverse.drop (k + 1)).reverse := by
      rw [List.length_reverse] at hlt
      have htake := congrArg (List.take (stop - 1 - (0 + 1 + k))) hfront
      rw [List.take_take, Nat.min_eq_left (by omega), hsplit, List.append_assoc,
        List.take_left' (by simp only [List.length_reverse, List.length_drop]; omega)] at htake
      exact htake
    have hcut : stop - 1 - (0 + 1 + k) ≤ y.length := by omega
    obtain ⟨b', hb', hblank'⟩ := exists_trimBlanks hcut
    have hbefore : passAfter 0 (front.reverse.drop (k + 1)).reverse = some 0 := by
      rw [← hstart, hb', passAfter_append, hname, Option.bind_some, hblanks hblank']
    have hinside := passAfter_reverse hk
    have hfrontPass : passAfter 0 front = some 1 := by
      rw [hsplit, passAfter_append, hbefore]
      exact hinside
    rw [hfront, passAfter_append, hfrontPass]
    exact hblanks hblank

/-- A parenthesis that decides opens no tuple. -/
theorem opensTuple_of_deciderFrom {code : Code} {start stop angles skip pos p : Nat}
    {cells : Code} (hcells : code.window pos stop = cells)
    (h : code.deciderFrom start stop angles skip pos cells = .at p) (hp : code[p]? = some '(') :
    code.opensTuple start p = false := by
  induction cells generalizing angles skip pos with
  | nil => cases h
  | cons c rest ih =>
    obtain ⟨-, hc, hrest⟩ := window_eq_cons hcells
    have next : ∀ {angles skip : Nat},
        code.deciderFrom start stop angles skip (pos + 1) rest = .at p →
        code.opensTuple start p = false := fun h => ih hrest.symm h
    cases skip with
    | succ skip => exact next h
    | zero =>
      simp only [deciderFrom] at h
      split at h
      · exact next h
      · split at h
        · exact next h
        · split at h
          · split at h
            · cases h
            · exact next h
          · rename_i htuple
            split at h
            · rename_i hdecides
              obtain rfl := Decider.at.inj h
              rw [hc] at hp
              obtain rfl := Option.some.inj hp
              rw [Bool.and_eq_true] at hdecides
              simpa [hdecides.1] using htuple
            · exact next h

/-- From its name on, the parenthesis before its parameters decides the kind of a callable. -/
theorem deciderFrom_named {y : Code} {o e : Nat} {typeParams : Option Range}
    (h : y.callableName? 0 o = some (⟨0, e⟩, typeParams)) (hopen : y[o]? = some '(')
    (htuple : y.opensTuple 0 o = false) :
    y.deciderFrom 0 y.length 0 0 0 y = .at o := by
  obtain ⟨ho, hget⟩ := List.getElem?_eq_some_iff.mp hopen
  have hpass : y.deciderFrom 0 y.length 0 0 0 (y.take o ++ y.drop o) = _ :=
    deciderFrom_pass (passAfter_named (Nat.le_of_lt ho) h) (y.drop o)
  rw [List.take_append_drop, List.length_take_of_le (Nat.le_of_lt ho), Nat.zero_add,
    List.drop_eq_getElem_cons ho, hget] at hpass
  rw [hpass, deciderFrom, htuple]
  rfl

/-- A callable that begins with its name, as it is found behind any lead. -/
structure Named (y : Code) (c : CallableLayout) : Prop where
  start : c.name.start = 0
  name : y.callableName? 0 c.opening = some (c.name, c.typeParams)
  opens : y[c.opening]? = some '('
  tuple : y.opensTuple 0 c.opening = false
  undeclared : Undeclared (y.take c.opening)
  parts : y.named? c.name.stop c.typeParams c.opening = some c

section

variable {y : Code} {c : CallableLayout} (h : y.Named c)
include h

theorem Named.name_eq : y.callableName? 0 c.opening = some (⟨0, c.name.stop⟩, c.typeParams) := by
  rw [h.name, ← h.start]

theorem Named.opening_lt : c.opening < y.length := (List.getElem?_eq_some_iff.mp h.opens).1

theorem Named.decider : y.deciderFrom 0 y.length 0 0 0 y = .at c.opening :=
  deciderFrom_named h.name_eq h.opens h.tuple

theorem Named.head : ∃ d, y.head? = some d ∧ isNameCell d = true := by
  obtain ⟨width, hwidth, hne, hzero, -⟩ := callableName?_eq_some_iff.mp h.name_eq
  simp only at hwidth hzero
  have hle : c.name.stop ≤ c.opening := (callableName?_stop_le h.name_eq).2
  have hlt := h.opening_lt
  rw [window_zero] at hwidth
  have hlen : (y.take c.name.stop).length = c.name.stop := List.length_take_of_le (by omega)
  have hbound := trailing_le isNameCell (y.take c.name.stop)
  have hfirst : 0 < (y.take c.name.stop).length := by omega
  refine ⟨(y.take c.name.stop)[0], ?_,
    all_of_trailing_eq (by omega) _ (List.getElem_mem hfirst)⟩
  rw [List.head?_eq_getElem?, List.getElem_take, List.getElem?_eq_getElem (by omega)]

theorem Named.readable : c.Readable y := by
  have hzero := seam_zero y
  have hend := seam_length y
  have hopen := seam_of_solid h.opens (by decide)
  obtain ⟨-, -, -, hname, htypeParams⟩ := callableName?_spec (Nat.zero_le _) hzero hopen.1 h.name
  have hparts := h.parts
  simp only [named?, Option.bind_eq_bind, Option.bind_eq_some_iff, Option.some.injEq] at hparts
  obtain ⟨closing, hclosing, params, hparams, bodyStart, hbodyStart, body, hbody, heq⟩ := hparts
  obtain ⟨-, hlt, hclt, hclose⟩ := matchingClose?_take_spec hclosing
  have hcloseSeam := seam_of_solid hclose (by decide)
  obtain ⟨-, hparams⟩ := parameters?_spec hlt hopen.2 hcloseSeam.1 hparams
  obtain ⟨hle, hstart⟩ := bodyStartFrom_spec (Nat.le_refl _) hclt rfl hbodyStart
  obtain ⟨hbody, -⟩ := body?_spec hle hstart hend (fun _ hnext => by simp at hnext) hbody
  have htail : y.Fits ⟨closing + 1, min bodyStart y.length⟩ := by
    rw [Nat.min_eq_left hstart.le]
    exact ⟨hle, hcloseSeam.2, hstart.seam hend⟩
  have hempty : y.Fits ⟨0, 0⟩ := ⟨Nat.le_refl 0, hzero, hzero⟩
  rw [← heq] at hname htypeParams ⊢
  exact ⟨hempty, hempty, hname, htypeParams, hparams, htail, hbody⟩

end

theorem named?_parts {y : Code} {e o : Nat} {typeParams : Option Range} {c : CallableLayout}
    (h : y.named? e typeParams o = some c) :
    c.name = ⟨0, e⟩ ∧ c.typeParams = typeParams ∧ c.opening = o := by
  simp only [named?, Option.bind_eq_bind, Option.bind_eq_some_iff, Option.some.injEq] at h
  obtain ⟨-, -, -, -, -, -, -, -, rfl⟩ := h
  exact ⟨rfl, rfl, rfl⟩

/-- Code declares nothing if its two parts, which are apart, do not. -/
theorem Undeclared.of_append {l r : Code} (hapart : Apart l r)
    (h : (declarationKeywords.any fun k => containsWord k.toList (l ++ r)) = false) :
    Undeclared l ∧ Undeclared r := by
  rw [List.any_eq_false] at h
  have hboth : ∀ k ∈ declarationKeywords,
      containsWord k.toList l = false ∧ containsWord k.toList r = false := by
    intro k hk
    obtain ⟨hne, hword⟩ := declarationKeywords_ident k hk
    have := h k hk
    rw [containsWord_append hne hword hapart] at this
    simpa using this
  exact ⟨fun k hk => (hboth k hk).1, fun k hk => (hboth k hk).2⟩

/-- Attributes end in a bracket or a blank. -/
theorem attributesFrom_last {code : Code} {depth opened pos stop : Nat} {cells : Code}
    (hcells : code.window pos stop = cells)
    (hpos : depth = 0 → 0 < pos → ∀ d, code[pos - 1]? = some d → isLayoutBlank d = true ∨ d = ']')
    (hopened : depth ≠ 0 → 0 < opened →
      ∀ d, code[opened - 1]? = some d → isLayoutBlank d = true ∨ d = ']')
    (hlt : 0 < attributesFrom depth opened pos cells) :
    ∀ d, code[attributesFrom depth opened pos cells - 1]? = some d →
      isLayoutBlank d = true ∨ d = ']' := by
  induction cells generalizing depth opened pos with
  | nil =>
    rw [attributesFrom] at hlt ⊢
    split at hlt
    · rename_i hdepth
      rw [if_pos hdepth]
      exact hpos (by simpa using hdepth) hlt
    · rename_i hdepth
      rw [if_neg hdepth]
      exact hopened (by simpa using hdepth) hlt
  | cons c rest ih =>
    obtain ⟨-, hc, hrest⟩ := window_eq_cons hcells
    cases depth with
    | zero =>
      simp only [attributesFrom] at hlt ⊢
      split at hlt
      · rename_i hbracket
        rw [if_pos hbracket]
        exact ih hrest.symm (fun h => absurd h (by decide)) (fun _ => hpos rfl) hlt
      · rename_i hbracket
        rw [if_neg hbracket]
        split at hlt
        · rename_i hblank
          rw [if_pos hblank]
          refine ih hrest.symm (fun _ _ d hd => ?_) (fun h => absurd rfl h) hlt
          rw [Nat.add_sub_cancel, hc] at hd
          exact .inl (Option.some.inj hd ▸ hblank)
        · rename_i hblank
          rw [if_neg hblank]
          exact hpos rfl hlt
    | succ depth =>
      have hbefore := hopened (Nat.succ_ne_zero depth)
      simp only [attributesFrom] at hlt ⊢
      split at hlt
      · rename_i hbracket
        rw [if_pos hbracket]
        exact ih hrest.symm (fun h => absurd h (Nat.succ_ne_zero _)) (fun _ => hbefore) hlt
      · rename_i hbracket
        rw [if_neg hbracket]
        split at hlt
        · rename_i hclose
          rw [if_pos hclose]
          refine ih hrest.symm (fun _ _ d hd => ?_) (fun _ => hbefore) hlt
          rw [Nat.add_sub_cancel, hc] at hd
          exact .inr (Option.some.inj hd ▸ beq_iff_eq.mp hclose)
        · rename_i hclose
          rw [if_neg hclose]
          exact ih hrest.symm (fun h => absurd h (Nat.succ_ne_zero _)) (fun _ => hbefore) hlt

/-- No cell of a name, and no `~`, stands right before the name of a callable. -/
theorem last_before_name {x : Code} {start opening : Nat} {name : Range}
    {typeParams : Option Range} (hstart : x.skipAttributes 0 x.length = start)
    (hname : x.callableName? start opening = some (name, typeParams))
    (hstop : name.stop ≤ x.length)
    (htilde : ¬(start < name.start && x[name.start - 1]? == some '~') = true) :
    ∀ d, (x.take name.start).getLast? = some d → isNameCell d = false ∧ d ≠ '~' := by
  intro d hd
  obtain ⟨width, hwidth, hne, hnameStart, -⟩ := callableName?_eq_some_iff.mp hname
  have hwidthLe := trailing_le isNameCell (x.window start name.stop)
  rw [length_window] at hwidthLe
  have hpos : 0 < name.start := by
    refine Nat.pos_of_ne_zero fun hzero => ?_
    rw [hzero, List.take_zero] at hd
    cases hd
  have hcell : x[name.start - 1]? = some d := by
    rw [List.getLast?_eq_getElem?, List.length_take_of_le (by omega),
      List.getElem?_take_of_lt (by omega)] at hd
    exact hd
  rcases Nat.lt_or_ge start name.start with hlt | hge
  · obtain ⟨-, -, hbefore⟩ := runBack_spec isNameCell (show start ≤ name.stop by omega) hstop
    rw [← hwidth, ← hnameStart] at hbefore
    obtain ⟨e, he, hnotName⟩ := hbefore hlt
    rw [hcell] at he
    obtain rfl := Option.some.inj he
    refine ⟨hnotName, ?_⟩
    rintro rfl
    exact htilde (by simp [hlt, hcell])
  · -- The name begins the declaration, so its attributes stand before it.
    have hat : name.start = start := by omega
    have hattributes : isLayoutBlank d = true ∨ d = ']' := by
      rw [hat, ← hstart] at hcell hpos
      exact attributesFrom_last rfl (by simp) (by simp) hpos d hcell
    rcases hattributes with hblank | rfl
    · refine ⟨Bool.eq_false_iff.mpr fun hname => ?_, ?_⟩
      · rw [isLayoutBlank_of_isNameCell hname] at hblank
        cases hblank
      · rintro rfl
        exact absurd hblank (by decide)
    · decide

/-- Where a name begins, a callable falls into what stands before the name and what begins with
it. -/
theorem exists_named {u y className : Code} {start o n : Nat} {typeParams : Option Range}
    {shape : MemberShape} (hstart : start ≤ u.length)
    (hlast : ∀ d, u.getLast? = some d → isNameCell d = false ∧ d ≠ '~')
    (hopen : (u ++ y)[u.length + o]? = some '(')
    (hname : (u ++ y).callableName? start (u.length + o) = some (⟨u.length, n⟩, typeParams))
    (htuple : (u ++ y).opensTuple start (u.length + o) = false)
    (hundeclared : (declarationKeywords.any fun k =>
      containsWord k.toList ((u ++ y).window start (u.length + o))) = false)
    (hcallable : (u ++ y).callable? className start (u.length + o) (u ++ y).length = some shape) :
    ∃ c, y.Named c ∧ Undeclared (u.drop start) ∧ c.opening = o ∧
      (let (modifiers, resultStart) := modifiersFrom memberModifiers [] start start (u.drop start)
      let k := (c.shift u.length).withLead ⟨(u ++ y).skipBlanks start u.length, u.length⟩
        modifiers ⟨resultStart, u.length⟩
      if (u ++ y).isWhiteBetween resultStart u.length then
        if y.window 0 c.name.stop == className then some (.constructor k) else none
      else some (.method k)) = some shape := by
  have hyOpen : y[o]? = some '(' := by
    rwa [List.getElem?_append_right (Nat.le_add_right ..), Nat.add_sub_cancel_left] at hopen
  have ho : o < y.length := (List.getElem?_eq_some_iff.mp hyOpen).1
  have hident : ∀ e, u.getLast? = some e → isNameCell e = false ∧ isIdentCell e = false := by
    intro e he
    have hname := (hlast e he).1
    refine ⟨hname, ?_⟩
    simp only [isNameCell, Bool.or_eq_false_iff] at hname
    exact hname.1
  obtain ⟨e, params, -, -, hparts⟩ :=
    callableName?_of_append hstart (fun e he => (hident e he).1) (Nat.le_of_lt ho) hname
  rw [List.length_append, callable?_append hstart hlast ho hparts] at hcallable
  obtain ⟨c, hc, hshape⟩ := Option.bind_eq_some_iff.mp hcallable
  obtain ⟨hcName, hcParams, rfl⟩ := named?_parts hc
  have hstop : e = c.name.stop := by rw [hcName]
  obtain rfl := hcParams
  subst hstop
  have hapart : Apart (u.drop start) (y.take c.opening) := by
    refine .inl fun d hd => ?_
    have := last_drop hstart (fun e he => (hident e he).1) d hd
    simp only [isNameCell, Bool.or_eq_false_iff] at this
    exact this.1
  rw [window_append_right hstart, window_zero] at hundeclared
  obtain ⟨hlead, hyUndeclared⟩ := Undeclared.of_append hapart hundeclared
  have hyTuple : y.opensTuple 0 c.opening = false := by
    obtain ⟨width, hwidth, hne, hzero, -⟩ := callableName?_eq_some_iff.mp hparts
    have heo := (callableName?_stop_le hparts).2
    simp only at hwidth hzero heo
    have hbound := trailing_window_le y 0 c.name.stop isNameCell
    rwa [opensTuple_append hstart (fun e he => (hident e he).2) (Nat.le_of_lt ho)
      (exists_nonblank (by omega) (by omega) (by omega) heo)] at htuple
  refine ⟨c, ⟨?_, ?_, hyOpen, hyTuple, hyUndeclared, hc⟩, hlead, rfl, hshape⟩
  · rw [hcName]
  · rw [hparts, ← hcName]

/-- The parts of a constructor or method before its name and from its name on. -/
theorem exists_named_of_callable {x className : Code} {k : CallableLayout} {start : Nat}
    (hstart : x.skipAttributes 0 x.length = start)
    (h : (x.memberLayout className ⟨0, x.length⟩).shape.callable? = some k) :
    ∃ u y c, x = u ++ y ∧ start ≤ u.length ∧ y.Named c ∧ Undeclared (u.drop start) ∧
      (∀ d, u.getLast? = some d → isNameCell d = false ∧ d ≠ '~') ∧
      (let (modifiers, resultStart) := modifiersFrom memberModifiers [] start start (u.drop start)
      let k := (c.shift u.length).withLead ⟨x.skipBlanks start u.length, u.length⟩
        modifiers ⟨resultStart, u.length⟩
      if x.isWhiteBetween resultStart u.length then
        if y.window 0 c.name.stop == className then some (.constructor k) else none
      else some (.method k)) = some (x.memberLayout className ⟨0, x.length⟩).shape := by
  obtain ⟨pos, hdecider, hundeclared, hopen, hcallable⟩ := memberLayout_callable? h
  simp only [hstart] at hdecider hundeclared hcallable
  have hpos : pos < x.length := (List.getElem?_eq_some_iff.mp hopen).1
  have htuple := opensTuple_of_deciderFrom rfl hdecider hopen
  obtain ⟨c, hfound, -⟩ := callable?_cases hcallable
  obtain ⟨width, hwidth, hne, hnameStart, -⟩ := callableName?_eq_some_iff.mp hfound.name
  have hstop := (callableName?_stop_le hfound.name).2
  have hwidthLe := trailing_le isNameCell (x.window start c.name.stop)
  rw [length_window] at hwidthLe
  have hlast := last_before_name hstart hfound.name (by omega) hfound.no_tilde
  have hname := hfound.name
  generalize c.name = name at *
  -- The code falls into two parts where the name begins.
  obtain ⟨u, y, rfl, hu⟩ : ∃ u y, x = u ++ y ∧ u.length = name.start :=
    ⟨x.take name.start, x.drop name.start, (List.take_append_drop ..).symm,
      List.length_take_of_le (by omega)⟩
  obtain ⟨o, rfl⟩ : ∃ o, pos = u.length + o := ⟨pos - u.length, by omega⟩
  rw [List.take_left' hu] at hlast
  rw [show name = ⟨u.length, name.stop⟩ by rw [hu]] at hname
  obtain ⟨c, hnamed, hlead, -, hshape⟩ :=
    exists_named (by omega) hlast hopen hname htuple hundeclared hcallable
  exact ⟨u, y, c, rfl, by omega, hnamed, hlead, hlast, hshape⟩

/-- The parts of a method before its name and from its name on. -/
theorem exists_named_of_method {x className : Code} {k : CallableLayout} {start : Nat}
    (hstart : x.skipAttributes 0 x.length = start)
    (h : (x.memberLayout className ⟨0, x.length⟩).shape = .method k) :
    ∃ u y c, x = u ++ y ∧ start < u.length ∧ y.Named c ∧ Undeclared (u.drop start) ∧
      (∀ d, u.getLast? = some d → isNameCell d = false ∧ d ≠ '~') ∧
      k = (c.shift u.length).withLead ⟨x.skipBlanks start u.length, u.length⟩
        (modifiersFrom memberModifiers [] start start (u.drop start)).1
        ⟨(modifiersFrom memberModifiers [] start start (u.drop start)).2, u.length⟩ ∧
      x.isWhiteBetween (modifiersFrom memberModifiers [] start start (u.drop start)).2
        u.length = false := by
  obtain ⟨u, y, c, hx, hle, hnamed, hlead, hlast, hshape⟩ :=
    exists_named_of_callable hstart (k := k) (by rw [h]; rfl)
  rw [h] at hshape
  simp only at hshape
  split at hshape
  · split at hshape <;> cases hshape
  rename_i hblack
  refine ⟨u, y, c, hx, Nat.lt_of_le_of_ne hle ?_, hnamed, hlead, hlast, ?_, ?_⟩
  · -- Nothing stands before the name otherwise, and nothing is white.
    rintro rfl
    rw [List.drop_length] at hblack
    exact hblack (by simp [modifiersFrom, isWhiteBetween, window])
  · simpa using (Option.some.inj hshape).symm
  · simpa using hblack

section

variable {u y className : Code} {c : CallableLayout} {start : Nat}
  (hstart : (u ++ y).skipAttributes 0 (u ++ y).length = start) (hle : start ≤ u.length)
  (hy : y.Named c) (hlast : ∀ d, u.getLast? = some d → isNameCell d = false ∧ d ≠ '~')
  (hundeclared : Undeclared (u.drop start))
  (hpass : (u ++ y).deciderFrom start (u ++ y).length 0 0 start (u.drop start ++ y) =
    (u ++ y).deciderFrom start (u ++ y).length 0 0 u.length y)
include hstart hle hy hlast hundeclared hpass

/-- Behind a lead that declares nothing, such code is a method, or a constructor if the lead holds
modifiers only. -/
theorem memberLayout_named {k : CallableLayout} {shape : MemberShape}
    (hk : k = (c.shift u.length).withLead ⟨(u ++ y).skipBlanks start u.length, u.length⟩
      (modifiersFrom memberModifiers [] start start (u.drop start)).1
      ⟨(modifiersFrom memberModifiers [] start start (u.drop start)).2, u.length⟩)
    (hshape : (if (u ++ y).isWhiteBetween
          (modifiersFrom memberModifiers [] start start (u.drop start)).2 u.length then
        if y.window 0 c.name.stop == className then some (.constructor k) else none
      else some (.method k)) = some shape) :
    ∃ signature, start ≤ signature ∧ (u ++ y).memberLayout className ⟨0, (u ++ y).length⟩ =
      { range := ⟨0, (u ++ y).length⟩, signature := ⟨start, signature⟩, shape } := by
  have hident : ∀ d, u.getLast? = some d → isIdentCell d = false := by
    intro d hd
    have := (hlast d hd).1
    simp only [isNameCell, Bool.or_eq_false_iff] at this
    exact this.1
  have hdecider : (u ++ y).deciderFrom start (u ++ y).length 0 0 start
      ((u ++ y).window start (u ++ y).length) = .at (u.length + c.opening) := by
    have hrest : (u ++ y).deciderFrom start (u.length + y.length) 0 0 (u.length + 0) y =
        (y.deciderFrom 0 y.length 0 0 0 y).shift u.length :=
      deciderFrom_append hle hident (by rw [window_zero, List.take_length]) hy.head
    have hcells : (u ++ y).window start (u ++ y).length = u.drop start ++ y := by
      rw [List.length_append, window_append_right hle, window_zero, List.take_length]
    rw [hcells, hpass, List.length_append]
    rw [hy.decider] at hrest
    exact hrest
  have hdeclares : (declarationKeywords.any fun k =>
      containsWord k.toList ((u ++ y).window start (u.length + c.opening))) = false := by
    rw [window_append_right hle, window_zero]
    refine (hundeclared.append (.inl fun d hd => ?_) hy.undeclared).any_eq_false
    have := last_drop hle (fun e he => (hlast e he).1) d hd
    simp only [isNameCell, Bool.or_eq_false_iff] at this
    exact this.1
  have hopen : (u ++ y)[u.length + c.opening]? = some '(' := by
    rw [List.getElem?_append_right (Nat.le_add_right ..), Nat.add_sub_cancel_left, hy.opens]
  have hcallable : (u ++ y).callable? className start (u.length + c.opening) _ = _ :=
    callable?_append hle hlast hy.opening_lt hy.name_eq
  rw [hy.parts, Option.bind_some, ← List.length_append] at hcallable
  rw [hk] at hshape
  have hfound := hcallable.trans hshape
  refine ⟨max (shape.callable?.elim (u.length + c.opening) fun c => c.closing + 1) start,
    Nat.le_max_right _ _, ?_⟩
  simp only [memberLayout, hstart, hdecider, hdeclares, hopen, hfound, beq_self_eq_true,
    if_true, Bool.false_eq_true, if_false]

/-- Behind a lead that holds more than modifiers, such code is a method. -/
theorem memberLayout_of_named
    (hblack : (u ++ y).isWhiteBetween
      (modifiersFrom memberModifiers [] start start (u.drop start)).2 u.length = false) :
    ∃ signature, start ≤ signature ∧ (u ++ y).memberLayout className ⟨0, (u ++ y).length⟩ =
      { range := ⟨0, (u ++ y).length⟩, signature := ⟨start, signature⟩
        shape := .method ((c.shift u.length).withLead
          ⟨(u ++ y).skipBlanks start u.length, u.length⟩
          (modifiersFrom memberModifiers [] start start (u.drop start)).1
          ⟨(modifiersFrom memberModifiers [] start start (u.drop start)).2, u.length⟩) } :=
  memberLayout_named hstart hle hy hlast hundeclared hpass rfl (by simp [hblack])

/-- Behind modifiers and the blanks around them, such code is a constructor if it has the name of the
class. -/
theorem memberLayout_of_named_constructor
    (hwhite : (u ++ y).isWhiteBetween
      (modifiersFrom memberModifiers [] start start (u.drop start)).2 u.length = true)
    (hname : y.window 0 c.name.stop = className) :
    ∃ signature, start ≤ signature ∧ (u ++ y).memberLayout className ⟨0, (u ++ y).length⟩ =
      { range := ⟨0, (u ++ y).length⟩, signature := ⟨start, signature⟩
        shape := .constructor ((c.shift u.length).withLead
          ⟨(u ++ y).skipBlanks start u.length, u.length⟩
          (modifiersFrom memberModifiers [] start start (u.drop start)).1
          ⟨(modifiersFrom memberModifiers [] start start (u.drop start)).2, u.length⟩) } :=
  memberLayout_named hstart hle hy hlast hundeclared hpass rfl (by simp [hwhite, hname])

end

end ClassRefactor.Code
