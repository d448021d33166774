import ClassRefactor.Proofs.Layout.Nest

/-!
# What stands before a name

A constructor or method is found from its name on, whatever modifiers and return type stand before
the name: they only decide which of the two it is.
-/

namespace ClassRefactor.Code

/-- A run at the end of code does not reach into what precedes it if it ends before, or if it could
not go on there. -/
theorem trailing_append {p : Char → Bool} {l r : Code}
    (h : (∃ c ∈ r, p c = false) ∨ ∀ c, l.getLast? = some c → p c = false) :
    trailing p (l ++ r) = trailing p r := by
  rw [trailing, leading, trailing, leading, List.reverse_append, List.takeWhile_append]
  split
  · rename_i hall
    have hstop : l.reverse.takeWhile p = [] := by
      rcases h with ⟨c, hc, hpc⟩ | h
      · -- All of what follows would satisfy the predicate.
        have hwhole := List.all_takeWhile (p := p) (l := r.reverse)
        rw [(List.takeWhile_prefix p).eq_of_length hall, List.all_eq_true] at hwhole
        rw [hwhole c (List.mem_reverse.mpr hc)] at hpc
        cases hpc
      · rcases List.eq_nil_or_concat l with rfl | ⟨init, c, rfl⟩
        · rfl
        · have hc := h c (by simp)
          simp [hc]
    rw [hstop, List.append_nil, ← hall]
  · rfl

/-- A closing delimiter is found in a piece of code if it is found in all of it, and lies there. -/
theorem closeFrom_append_iff {opening closing : Char} {depth n : Nat} {l r : Code} :
    closeFrom opening closing depth l = some n ↔
      closeFrom opening closing depth (l ++ r) = some n ∧ n < l.length := by
  induction l generalizing depth n with
  | nil => simp [closeFrom]
  | cons c l ih =>
    have hmap : ∀ d, (closeFrom opening closing d l).map (· + 1) = some n ↔
        (closeFrom opening closing d (l ++ r)).map (· + 1) = some n ∧ n < (c :: l).length := by
      intro d
      simp only [Option.map_eq_some_iff, ih, List.length_cons]
      constructor
      · rintro ⟨m, ⟨hm, hlt⟩, rfl⟩
        exact ⟨⟨m, hm, rfl⟩, Nat.succ_lt_succ hlt⟩
      · rintro ⟨⟨m, hm, rfl⟩, hlt⟩
        exact ⟨m, ⟨hm, Nat.lt_of_succ_lt_succ hlt⟩, rfl⟩
    rw [List.cons_append, closeFrom.eq_def, closeFrom.eq_def]
    simp only
    split
    · exact hmap _
    · split
      · cases depth with
        | zero => simp only [Option.some.injEq, List.length_cons]; omega
        | succ depth => exact hmap _
      · exact hmap _

/-- A cell that a name may be written with. -/
def isNameCell (c : Char) : Bool := isIdentCell c || c == '.'

section

variable {u y : Code} {start o : Nat}

theorem window_append_right (hstart : start ≤ u.length) :
    (u ++ y).window start (u.length + o) = u.drop start ++ y.window 0 o := by
  have hcount : u.length + o - start = (u.drop start).length + o := by
    rw [List.length_drop]
    omega
  rw [window, List.drop_append_of_le_length hstart, hcount, List.take_length_add_append]
  rfl

theorem getLast?_drop_eq (hstart : start < u.length) : (u.drop start).getLast? = u.getLast? := by
  rw [List.getLast?_drop, if_neg (by omega)]

/-- Blanks before a position do not reach over a cell that is none. -/
theorem trimBlanks_append (hstart : start ≤ u.length)
    (hy : ∃ c ∈ y.window 0 o, isLayoutBlank c = false) :
    (u ++ y).trimBlanks start (u.length + o) = u.length + y.trimBlanks 0 o := by
  have := trailing_window_le y 0 o isLayoutBlank
  rw [trimBlanks, trimBlanks, window_append_right hstart, trailing_append (.inl hy)]
  omega

/-- Going back from the end of some code, an opening delimiter is found in a piece of it if it is
found in all of it, and lies there. -/
theorem matchingClose?_reverse_append_iff {l r : Code} {n : Nat} (hr : r ≠ []) :
    matchingClose? '>' '<' r.reverse 0 = some n ↔
      matchingClose? '>' '<' (l ++ r).reverse 0 = some n ∧ n < r.length := by
  rw [List.reverse_append]
  cases hrev : r.reverse with
  | nil => exact absurd (List.reverse_eq_nil_iff.mp hrev) hr
  | cons c rest =>
    have hlen : r.length = rest.length + 1 := by
      rw [← List.length_reverse, hrev, List.length_cons]
    simp only [matchingClose?, List.drop_zero, List.cons_append, hlen]
    split
    · simp only [Option.map_eq_some_iff, closeFrom_append_iff (l := rest) (r := l.reverse)]
      constructor
      · rintro ⟨m, ⟨hm, hlt⟩, rfl⟩
        exact ⟨⟨m, hm, rfl⟩, by omega⟩
      · rintro ⟨⟨m, hm, rfl⟩, hlt⟩
        exact ⟨m, ⟨hm, by omega⟩, rfl⟩
    · simp

/-- How the name before a parenthesis is found, with its type parameters if there are any. -/
theorem callableName?_eq_some_iff {code : Code} {name : Range} {typeParams : Option Range} :
    code.callableName? start o = some (name, typeParams) ↔
      ∃ width, width = trailing isNameCell (code.window start name.stop) ∧ width ≠ 0 ∧
        name.start = name.stop - width ∧
        ((¬(start < code.trimBlanks start o ∧ code[code.trimBlanks start o - 1]? = some '>') ∧
            name.stop = code.trimBlanks start o ∧ typeParams = none) ∨
          ∃ n, start < code.trimBlanks start o ∧ code[code.trimBlanks start o - 1]? = some '>' ∧
            matchingClose? '>' '<' (code.window start (code.trimBlanks start o)).reverse 0 =
              some n ∧
            name.stop = code.trimBlanks start (code.trimBlanks start o - 1 - n) ∧
            typeParams = some ⟨code.trimBlanks start o - 1 - n, code.trimBlanks start o⟩) := by
  have hpred : (fun c => isIdentCell c || c == '.') = isNameCell := rfl
  obtain ⟨nameStart, nameStop⟩ := name
  simp only [callableName?, Option.bind_eq_bind, hpred]
  by_cases hangle : start < code.trimBlanks start o ∧ code[code.trimBlanks start o - 1]? = some '>'
  · have hcond : (decide (start < code.trimBlanks start o) &&
        code[code.trimBlanks start o - 1]? == some '>') = true := by
      simpa using hangle
    simp only [hcond, ↓reduceIte, Option.bind_some]
    constructor
    · intro h
      obtain ⟨n, hn, hname⟩ := Option.bind_eq_some_iff.mp h
      split at hname
      · cases hname
      · rename_i hwidth
        simp only [Option.some.injEq, Prod.mk.injEq, Range.mk.injEq] at hname
        obtain ⟨⟨rfl, rfl⟩, rfl⟩ := hname
        exact ⟨_, rfl, by simpa using hwidth, rfl, .inr ⟨n, hangle.1, hangle.2, hn, rfl, rfl⟩⟩
    · rintro ⟨width, rfl, hwidth, rfl, ⟨hno, -, -⟩ | ⟨n, -, -, hn, rfl, rfl⟩⟩
      · exact absurd hangle hno
      · refine Option.bind_eq_some_iff.mpr ⟨n, hn, ?_⟩
        simp [hwidth]
  · have hcond : (decide (start < code.trimBlanks start o) &&
        code[code.trimBlanks start o - 1]? == some '>') = false := by
      rw [Bool.eq_false_iff]
      simpa using hangle
    simp only [hcond, Bool.false_eq_true, ↓reduceIte, Option.bind_some]
    constructor
    · intro hname
      split at hname
      · cases hname
      · rename_i hwidth
        simp only [Option.some.injEq, Prod.mk.injEq, Range.mk.injEq] at hname
        obtain ⟨⟨rfl, rfl⟩, rfl⟩ := hname
        exact ⟨_, rfl, by simpa using hwidth, rfl, .inl ⟨hangle, rfl, rfl⟩⟩
    · rintro ⟨width, rfl, hwidth, rfl, ⟨-, rfl, rfl⟩ | ⟨n, h1, h2, -⟩⟩
      · simp [hwidth]
      · exact absurd ⟨h1, h2⟩ hangle

theorem isLayoutBlank_of_isNameCell {c : Char} (h : isNameCell c = true) :
    isLayoutBlank c = false := by
  simp only [isNameCell, Bool.or_eq_true, beq_iff_eq] at h
  rcases h with h | rfl
  · exact isLayoutBlank_eq_false_of_isIdentCell h
  · decide

/-- A run that fills a window. -/
theorem all_of_trailing_eq {p : Char → Bool} {l : Code} (h : trailing p l = l.length) :
    ∀ c ∈ l, p c = true := by
  have hall := List.all_takeWhile (p := p) (l := l.reverse)
  have hlen : (l.reverse.takeWhile p).length = l.reverse.length := by rwa [List.length_reverse]
  rw [(List.takeWhile_prefix p).eq_of_length hlen, List.all_eq_true] at hall
  exact fun c hc => hall c (List.mem_reverse.mpr hc)

/-- Code that begins with a name has a cell that is no blank. -/
theorem exists_nonblank {e p : Nat} (hpos : 0 < e) (hlen : e ≤ y.length)
    (hname : trailing isNameCell (y.window 0 e) = e) (hp : e ≤ p) :
    ∃ c ∈ y.window 0 p, isLayoutBlank c = false := by
  have hlength : (y.window 0 e).length = e := length_window_of_le hlen
  have hfirst : 0 < (y.window 0 e).length := by omega
  have hcell := all_of_trailing_eq (by rw [hname, hlength]) _ (List.getElem_mem hfirst)
  have hsub : y.window 0 e <+: y.window 0 p := List.take_prefix_take_left (by omega)
  exact ⟨_, hsub.subset (List.getElem_mem hfirst), isLayoutBlank_of_isNameCell hcell⟩

variable (hstart : start ≤ u.length) (hlast : ∀ c, u.getLast? = some c → isNameCell c = false)
include hstart hlast

theorem last_drop : ∀ c, (u.drop start).getLast? = some c → isNameCell c = false := by
  intro c hc
  rcases Nat.lt_or_eq_of_le hstart with hlt | heq
  · rw [getLast?_drop_eq hlt] at hc
    exact hlast c hc
  · rw [heq, List.drop_length] at hc
    cases hc

/-- A name at the front is found whatever stands before it. -/
theorem callableName?_append {e : Nat} {typeParams : Option Range}
    (h : y.callableName? 0 o = some (⟨0, e⟩, typeParams)) :
    (u ++ y).callableName? start (u.length + o) =
      some (⟨u.length, u.length + e⟩, typeParams.map (Range.shift u.length)) := by
  obtain ⟨-, hestop⟩ := callableName?_stop_le h
  obtain ⟨width, hwidth, hne, hzero, hcases⟩ := callableName?_eq_some_iff.mp h
  simp only at hwidth hzero hcases hestop
  have hle := trailing_window_le y 0 e isNameCell
  have hwidth' : trailing isNameCell ((u ++ y).window start (u.length + e)) = e := by
    rw [window_append_right hstart, trailing_append (.inr (last_drop hstart hlast))]
    omega
  have hlen : e ≤ y.length := by
    have := trailing_le isNameCell (y.window 0 e)
    rw [length_window] at this
    omega
  have hnonblank := fun {p} => exists_nonblank (y := y) (e := e) (p := p) (by omega) hlen (by omega)
  have htrim := trimBlanks_append (u := u) hstart (hnonblank hestop)
  refine callableName?_eq_some_iff.mpr ⟨e, hwidth'.symm, by omega, by simp only; omega, ?_⟩
  have hpos : 0 < y.trimBlanks 0 o := by
    rcases hcases with ⟨-, hstop, -⟩ | ⟨n, hlt, -⟩ <;> omega
  have hprev : (u ++ y)[u.length + y.trimBlanks 0 o - 1]? = y[y.trimBlanks 0 o - 1]? := by
    rw [List.getElem?_append_right (by omega)]
    congr 1
    omega
  rw [htrim, hprev]
  rcases hcases with ⟨hno, hstop, rfl⟩ | ⟨n, hlt, hangle, hn, hstop, rfl⟩
  · refine .inl ⟨fun hangle => hno ⟨hpos, hangle.2⟩, by simp only; omega, rfl⟩
  · have hwindow : y.window 0 (y.trimBlanks 0 o) ≠ [] := by
      intro hnil
      rw [hnil] at hn
      cases hn
    have hn' := (matchingClose?_reverse_append_iff (l := u.drop start) hwindow).mp hn
    have hnlt : n < y.trimBlanks 0 o := by
      have := hn'.2
      rw [length_window] at this
      omega
    have hless : u.length + y.trimBlanks 0 o - 1 - n = u.length + (y.trimBlanks 0 o - 1 - n) := by
      omega
    have hestop' : e ≤ y.trimBlanks 0 o - 1 - n := by
      rw [hstop]
      exact Nat.sub_le ..
    refine .inr ⟨n, by omega, hangle, ?_, ?_, ?_⟩
    · rw [window_append_right hstart]
      exact hn'.1
    · rw [hless, trimBlanks_append hstart (hnonblank hestop'), ← hstop]
    · rw [hless]
      rfl

/-- A name that begins where a piece of code does is found in that piece alone. -/
theorem callableName?_of_append {n : Nat} {typeParams : Option Range} (ho : o ≤ y.length)
    (h : (u ++ y).callableName? start (u.length + o) = some (⟨u.length, n⟩, typeParams)) :
    ∃ e params, n = u.length + e ∧ typeParams = params.map (Range.shift u.length) ∧
      y.callableName? 0 o = some (⟨0, e⟩, params) := by
  obtain ⟨-, hnstop⟩ := callableName?_stop_le h
  obtain ⟨width, hwidth, hne, hzero, hcases⟩ := callableName?_eq_some_iff.mp h
  simp only at hwidth hzero hcases hnstop
  obtain ⟨e, rfl⟩ : ∃ e, n = u.length + e := ⟨n - u.length, by omega⟩
  rw [window_append_right hstart, trailing_append (.inr (last_drop hstart hlast))] at hwidth
  have hle := trailing_window_le y 0 e isNameCell
  have hstarts : 0 = e - width := by omega
  have hlen : e ≤ y.length := by omega
  have hnonblank := fun {p} => exists_nonblank (y := y) (e := e) (p := p) (by omega) hlen (by omega)
  have htrim := trimBlanks_append (u := u) hstart (hnonblank (show e ≤ o by omega))
  rw [htrim] at hcases
  have htrimle : y.trimBlanks 0 o ≤ o := Nat.sub_le ..
  have hpos : 0 < y.trimBlanks 0 o := by
    rcases hcases with ⟨-, hstop, -⟩ | ⟨m, -, -, -, hstop, -⟩
    · omega
    · have : (u ++ y).trimBlanks start (u.length + y.trimBlanks 0 o - 1 - m) ≤
          u.length + y.trimBlanks 0 o - 1 - m := Nat.sub_le ..
      omega
  have hprev : (u ++ y)[u.length + y.trimBlanks 0 o - 1]? = y[y.trimBlanks 0 o - 1]? := by
    rw [List.getElem?_append_right (by omega)]
    congr 1
    omega
  rw [hprev] at hcases
  have hname : ∀ params, ((¬(0 < y.trimBlanks 0 o ∧ y[y.trimBlanks 0 o - 1]? = some '>') ∧
        e = y.trimBlanks 0 o ∧ params = none) ∨
      ∃ m, 0 < y.trimBlanks 0 o ∧ y[y.trimBlanks 0 o - 1]? = some '>' ∧
        matchingClose? '>' '<' (y.window 0 (y.trimBlanks 0 o)).reverse 0 = some m ∧
        e = y.trimBlanks 0 (y.trimBlanks 0 o - 1 - m) ∧
        params = some ⟨y.trimBlanks 0 o - 1 - m, y.trimBlanks 0 o⟩) →
      y.callableName? 0 o = some (⟨0, e⟩, params) := fun params hcases =>
    callableName?_eq_some_iff.mpr ⟨width, hwidth, hne, hstarts, hcases⟩
  rcases hcases with ⟨hno, hstop, rfl⟩ | ⟨m, hlt, hangle, hm, hstop, rfl⟩
  · have hno' : ¬(0 < y.trimBlanks 0 o ∧ y[y.trimBlanks 0 o - 1]? = some '>') :=
      fun hangle => hno ⟨by omega, hangle.2⟩
    exact ⟨e, none, rfl, rfl, hname _ (.inl ⟨hno', by omega, rfl⟩)⟩
  · have hback : (u ++ y).trimBlanks start (u.length + y.trimBlanks 0 o - 1 - m) ≤
        u.length + y.trimBlanks 0 o - 1 - m := Nat.sub_le ..
    have he : e ≤ y.trimBlanks 0 o - 1 - m := by omega
    have hwindow : y.window 0 (y.trimBlanks 0 o) ≠ [] := by
      intro hnil
      have := congrArg List.length hnil
      rw [length_window_of_le (by omega), List.length_nil] at this
      omega
    have hless : u.length + y.trimBlanks 0 o - 1 - m = u.length + (y.trimBlanks 0 o - 1 - m) := by
      omega
    rw [window_append_right hstart] at hm
    have hm' := (matchingClose?_reverse_append_iff (l := u.drop start) hwindow).mpr
      ⟨hm, by rw [length_window_of_le (by omega)]; omega⟩
    rw [hless] at hstop ⊢
    rw [trimBlanks_append hstart (hnonblank he)] at hstop
    exact ⟨e, some ⟨y.trimBlanks 0 o - 1 - m, y.trimBlanks 0 o⟩, rfl, rfl,
      hname _ (.inr ⟨m, hpos, hangle, hm', by omega, rfl⟩)⟩

end

/-- The layout of a callable that begins with its name. -/
def named? (y : Code) (e : Nat) (typeParams : Option Range) (o : Nat) : Option CallableLayout := do
  let closing ← matchingClose? '(' ')' (y.take y.length) o
  let params ← y.parameters? o closing
  let bodyStart ← y.bodyStartFrom y.length 0 (closing + 1) (y.window (closing + 1) y.length)
  let body ← y.body? bodyStart y.length
  some
    { lead := ⟨0, 0⟩, modifiers := [], result := ⟨0, 0⟩, name := ⟨0, e⟩, typeParams, opening := o
      closing, params, tail := ⟨closing + 1, min bodyStart y.length⟩, body }

end ClassRefactor.Code

namespace ClassRefactor

/-- The same callable with other modifiers and another result. -/
def CallableLayout.withLead (c : CallableLayout) (lead : Range) (modifiers : List String)
    (result : Range) : CallableLayout :=
  { c with lead, modifiers, result }

namespace Code

theorem shows_right (u y : Code) : (u ++ y).Shows u.length y := by
  simp only [Shows, List.drop_left, List.prefix_rfl]

theorem sealed_length (code : Code) : code.Sealed code.length := by
  intro _
  simp

/-- What stands before the name decides between constructor and method, and nothing else. -/
theorem callable?_append {u y : Code} {start o e : Nat} {typeParams : Option Range}
    {className : Code} (hstart : start ≤ u.length)
    (hlast : ∀ c, u.getLast? = some c → isNameCell c = false ∧ c ≠ '~') (ho : o < y.length)
    (hname : y.callableName? 0 o = some (⟨0, e⟩, typeParams)) :
    (u ++ y).callable? className start (u.length + o) (u.length + y.length) =
      (y.named? e typeParams o).bind fun c =>
        let (modifiers, resultStart) := modifiersFrom memberModifiers [] start start (u.drop start)
        let c := (c.shift u.length).withLead ⟨(u ++ y).skipBlanks start u.length, u.length⟩
          modifiers ⟨resultStart, u.length⟩
        if (u ++ y).isWhiteBetween resultStart u.length then
          if y.window 0 e == className then some (.constructor c) else none
        else some (.method c) := by
  have hshows := shows_right u y
  have hsealed : (u ++ y).Sealed (u.length + y.length) := by
    rw [← List.length_append]
    exact sealed_length _
  have htilde : (decide (start < u.length) && (u ++ y)[u.length - 1]? == some '~') = false := by
    rw [Bool.eq_false_iff]
    intro h
    simp only [Bool.and_eq_true, decide_eq_true_eq, beq_iff_eq] at h
    rw [List.getElem?_append_left (by omega), ← List.getLast?_eq_getElem?] at h
    exact (hlast _ h.2).2 rfl
  obtain ⟨-, he⟩ := callableName?_stop_le hname
  have hwindow : (u ++ y).window start u.length = u.drop start := by
    simpa [window] using window_append_right (y := y) (o := 0) hstart
  have hname' : (u ++ y).window u.length (u.length + e) = y.window 0 e := by
    simpa using hshows.window (i := 0) (show e ≤ y.length by simp only at he; omega)
  simp only [callable?, callableName?_append hstart (fun c hc => (hlast c hc).1) hname,
    Option.bind_eq_bind, Option.bind_some, htilde, Bool.false_eq_true, ↓reduceIte, modifiers,
    hwindow, hname', named?, hshows.matchingClose? _ _ (Nat.le_refl _)]
  cases hclose : Code.matchingClose? '(' ')' (y.take y.length) o with
  | none => rfl
  | some closing =>
    obtain ⟨-, hlt, hclt, -⟩ := matchingClose?_take_spec hclose
    have hnext : u.length + closing + 1 = u.length + (closing + 1) := Nat.add_assoc ..
    simp only [Option.map_some, Option.bind_some, hshows.parameters? hsealed hlt (by omega), hnext,
      hshows.window (Nat.le_refl _), hshows.bodyStartFrom hsealed (Nat.le_refl _) rfl]
    cases y.parameters? o closing with
    | none => rfl
    | some params =>
      cases y.bodyStartFrom y.length 0 (closing + 1) (y.window (closing + 1) y.length) with
      | none => rfl
      | some bodyStart =>
        simp only [Option.map_some, Option.bind_some, hshows.body? (Nat.le_refl _)]
        cases y.body? bodyStart y.length with
        | none => rfl
        | some body =>
          have hmin : min (u.length + bodyStart) (u.length + y.length) =
              u.length + min bodyStart y.length := by omega
          simp only [Option.map_some, Option.bind_some, hmin]
          rfl

/-- Whether a parenthesis after a name opens a tuple does not depend on what precedes the name. -/
theorem opensTuple_append {u y : Code} {start i : Nat} (hstart : start ≤ u.length)
    (hlast : ∀ c, u.getLast? = some c → isIdentCell c = false) (hi : i ≤ y.length)
    (hy : ∃ c ∈ y.window 0 i, isLayoutBlank c = false) :
    (u ++ y).opensTuple start (u.length + i) = y.opensTuple 0 i := by
  have hpos : 0 < y.trimBlanks 0 i := by
    obtain ⟨c, hc, hblank⟩ := hy
    have hle := trailing_le isLayoutBlank (y.window 0 i)
    have hlen : (y.window 0 i).length = i := length_window_of_le hi
    rcases Nat.lt_or_eq_of_le hle with hlt | heq
    · rw [trimBlanks]
      omega
    · rw [all_of_trailing_eq heq c hc] at hblank
      cases hblank
  have hstop : y.trimBlanks 0 i ≤ y.length := Nat.le_trans (Nat.sub_le ..) hi
  rw [opensTuple, opensTuple, trimBlanks_append hstart hy]
  generalize y.trimBlanks 0 i = stop at hpos hstop
  have hdrop : ∀ c, (u.drop start).getLast? = some c → isIdentCell c = false := by
    intro c hc
    rcases Nat.lt_or_eq_of_le hstart with hlt | heq
    · rw [getLast?_drop_eq hlt] at hc
      exact hlast c hc
    · rw [heq, List.drop_length] at hc
      cases hc
  have hwidth := trailing_window_le y 0 stop isIdentCell
  have hback : u.length + stop - trailing isIdentCell (y.window 0 stop) =
      u.length + (stop - trailing isIdentCell (y.window 0 stop)) := by omega
  have hprev : (u ++ y)[u.length + stop - 1]? = y[stop - 1]? := by
    rw [List.getElem?_append_right (by omega)]
    congr 1
    omega
  have hne : (u.length + stop == start) = false := beq_eq_false_iff_ne.mpr (by omega)
  have hne' : (stop == 0) = false := beq_eq_false_iff_ne.mpr (by omega)
  simp only [hne, hne', hprev, window_append_right hstart, trailing_append (.inr hdrop), hback,
    (shows_right u y).window hstop]

/-- From a name on, the kind of a member is decided without regard to what precedes the name. -/
theorem deciderFrom_append {u y : Code} {start angles skip i : Nat} {cells : Code}
    (hstart : start ≤ u.length) (hlast : ∀ c, u.getLast? = some c → isIdentCell c = false)
    (hcells : y.window i y.length = cells) (hy : ∃ c, y.head? = some c ∧ isNameCell c = true) :
    (u ++ y).deciderFrom start (u.length + y.length) angles skip (u.length + i) cells =
      (y.deciderFrom 0 y.length angles skip i cells).shift u.length := by
  induction cells generalizing angles skip i with
  | nil => rfl
  | cons c rest ih =>
    obtain ⟨hlt, hc, hrest⟩ := window_eq_cons hcells
    have hnext : ∀ angles skip,
        (u ++ y).deciderFrom start (u.length + y.length) angles skip (u.length + i + 1) rest =
          (y.deciderFrom 0 y.length angles skip (i + 1) rest).shift u.length :=
      fun _ _ => ih hrest.symm
    -- The first cell belongs to the name, so a parenthesis has the name before it.
    have htuple : (c == '(' && angles == 0 && (u ++ y).opensTuple start (u.length + i)) =
        (c == '(' && angles == 0 && y.opensTuple 0 i) := by
      obtain ⟨d, hd, hname⟩ := hy
      rcases Nat.eq_zero_or_pos i with rfl | hpos
      · rw [List.head?_eq_getElem?, hc] at hd
        obtain rfl := Option.some.inj hd
        have : (c == '(') = false := by
          rw [beq_eq_false_iff_ne]
          rintro rfl
          exact absurd hname (by decide)
        rw [this, Bool.false_and, Bool.false_and, Bool.false_and]
      · rw [opensTuple_append hstart hlast (by omega) ⟨d, ?_, isLayoutBlank_of_isNameCell hname⟩]
        obtain ⟨tail, rfl⟩ := List.head?_eq_some_iff.mp hd
        obtain ⟨j, rfl⟩ := Nat.exists_eq_add_of_lt hpos
        rw [window, List.drop_zero, Nat.sub_zero, Nat.zero_add, List.take_succ_cons]
        exact List.mem_cons_self
    cases skip with
    | succ skip => exact hnext angles skip
    | zero =>
      simp only [deciderFrom, hnext, htuple, (shows_right u y).matchingClose? _ _ (Nat.le_refl _)]
      split
      · rfl
      · split
        · rfl
        · split
          · cases matchingClose? '(' ')' (y.take y.length) i with
            | none => rfl
            | some close => simp only [Option.map_some, Nat.add_sub_add_left]
          · split <;> rfl

end Code

end ClassRefactor
