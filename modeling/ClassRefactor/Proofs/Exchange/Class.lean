import ClassRefactor.Proofs.Exchange.Lead

/-!
# Classes around an exchanged part

When a part that searches pass over is exchanged, such as the lead of a member, the same keywords
declare classes, and a class whose body opens before that part keeps everything that stands before
its body.
-/

namespace ClassRefactor.Code

/-- The start of a declaration is found in the code before its keyword. -/
theorem declarationStart_append {a : Code} {keyword : Nat} (h : keyword ≤ a.length) (r : Code) :
    (a ++ r).declarationStart keyword = a.declarationStart keyword := by
  rw [declarationStart, declarationStart, List.take_append_of_le_length h, skipBlanks, skipBlanks,
    window_append_left h]

section

variable {a b b' c : Code}

/-- What the exchange leaves of a class whose body opens before the exchanged part or right behind
it. -/
structure Exchanged (a b b' c : Code) (l l' : ClassLayout) : Prop where
  opening : Moved a b b' l.opening l'.opening
  closing : Moved a b b' l.closing l'.closing
  tail : l'.tail.start = l.tail.start ∨ a.length ≤ l.tail.start ∧ a.length ≤ l'.tail.start
  front : l.name.stop ≤ a.length ∧ ∀ r, l.typeParams = some r → r.stop ≤ a.length
  eq : l' = { l with
    range := ⟨l.range.start, l'.closing + 1⟩
    header := ⟨l.header.start, l'.opening⟩
    tail := ⟨l'.tail.start, l'.opening⟩
    opening := l'.opening
    closing := l'.closing
    members := ((a ++ b' ++ c).memberRanges (l'.opening + 1) l'.closing).map
      ((a ++ b' ++ c).memberLayout ((a ++ b ++ c).window l.name.start l.name.stop)) }

theorem rel_bind {α α' β β' : Type} {R : α → α' → Prop} {S : β → β' → Prop} {x : Option α}
    {x' : Option α'} {f : α → Option β} {f' : α' → Option β'} (h : Option.Rel R x x')
    (hf : ∀ y y', x = some y → R y y' → Option.Rel S (f y) (f' y')) :
    Option.Rel S (x.bind f) (x'.bind f') := by
  cases h with
  | some h => exact hf _ _ rfl h
  | none => exact .none

theorem forall₂_filterMap {α β γ : Type} {R : β → γ → Prop} {f : α → Option β}
    {g : α → Option γ} {as : List α} (h : ∀ a ∈ as, Option.Rel R (f a) (g a)) :
    List.Forall₂ R (as.filterMap f) (as.filterMap g) := by
  induction as with
  | nil => exact .nil
  | cons a as ih =>
    have hrest := ih fun d hd => h d (List.mem_cons_of_mem _ hd)
    have ha := h a List.mem_cons_self
    cases hf : f a with
    | none =>
      rw [hf] at ha
      generalize hg : g a = o at ha
      cases ha
      rwa [List.filterMap_cons_none hf, List.filterMap_cons_none hg]
    | some d =>
      rw [hf] at ha
      generalize hg : g a = o at ha
      cases ha with
      | some hd =>
        rw [List.filterMap_cons_some hf, List.filterMap_cons_some hg]
        exact .cons hd hrest

/-- Type parameters that close before the exchanged part close before the end. -/
theorem EndsAt.typeParams?_le {n p : Nat} (ha : a.EndsAt n) (hp : p ≤ n) {r : Code}
    {t : Option Range} (h : (a ++ r).typeParams? p = some t) (hle : t.elim p Range.stop ≤ a.length) :
    t.elim p Range.stop ≤ n := by
  rw [typeParams?] at h
  split at h
  · obtain ⟨close, hclose, rfl⟩ := Option.map_eq_some_iff.mp h
    obtain ⟨-, -, hcell⟩ := matchingClose?_spec hclose
    dsimp only [Option.elim_some] at hle ⊢
    rw [List.getElem?_append_left hle] at hcell
    exact ha.lt_of_getElem? hcell (by decide) (by decide)
  · obtain rfl := Option.some.inj h
    exact hp

/-- A class whose name ends in the code before the exchanged part, with a cell behind the name that
is no blank. -/
theorem classAt?_of_front {n keyword nameStart nameStop next : Nat} (hn : n ≤ a.length)
    (hb : Passed a n b) (hb' : Passed a n b')
    (htype : ∀ r t, (a ++ r).typeParams? next = some t → t.elim next Range.stop ≤ a.length →
      t.elim next Range.stop ≤ n)
    (hkeyword : keyword ≤ a.length) (hnameStop : nameStop ≤ a.length) (hnext : next < a.length)
    (hfront : ∀ l : Code, l = b ∨ l = b' →
      (a ++ (l ++ c)).skipBlanks (keyword + "class".length) (a ++ (l ++ c)).length = nameStart ∧
      (a ++ (l ++ c)).identEnd nameStart (a ++ (l ++ c)).length = nameStop ∧
      (a ++ (l ++ c)).skipBlanks nameStop (a ++ (l ++ c)).length = next) :
    Option.Rel (fun l l' => l.opening ≤ (a ++ b).length → Exchanged a b b' c l l')
      ((a ++ b ++ c).classAt? keyword) ((a ++ b' ++ c).classAt? keyword) := by
  have hclass : ∀ l : Code, l = b ∨ l = b' → (a ++ l ++ c).classAt? keyword =
      if (a.window nameStart nameStop).isEmpty ||
        a.window nameStart nameStop == "where".toList then none
      else ((a ++ l ++ c).typeParams? next).bind fun typeParams =>
        (Code.classBodyFrom 0 (typeParams.elim next Range.stop)
          ((a ++ l ++ c).drop (typeParams.elim next Range.stop))).bind fun opening =>
        (matchingClose? '{' '}' (a ++ l ++ c) opening).bind fun closing =>
        some
          { range := ⟨a.declarationStart keyword, closing + 1⟩
            header := ⟨a.declarationStart keyword, opening⟩
            modifiers := a.classModifiers (a.declarationStart keyword) keyword
            name := ⟨nameStart, nameStop⟩
            typeParams
            tail := ⟨typeParams.elim next Range.stop, opening⟩
            opening, closing
            members := ((a ++ l ++ c).memberRanges (opening + 1) closing).map
              ((a ++ l ++ c).memberLayout (a.window nameStart nameStop)) } := by
    intro l hl
    obtain ⟨hstart, hstop, hskip⟩ := hfront l hl
    rw [List.append_assoc, classAt?, hstart, hstop, hskip, window_append_left hnameStop,
      declarationStart_append hkeyword]
    simp only [classModifiers, window_append_left hkeyword]
    rfl
  rw [hclass b (.inl rfl), hclass b' (.inr rfl)]
  split
  · exact .none
  · refine rel_bind (typeParams?_moved hb hb' hnext) fun t t' ht ht' => ?_
    refine rel_bind (R := Moved a b b') (classBodyFrom_moved hn hb hb' ?_)
      fun opening opening' hbody ho => ?_
    · rw [List.append_assoc] at ht
      rcases ht' with ⟨hle, rfl⟩ | ⟨q, -, hq⟩
      · exact .inl ⟨htype _ _ ht hle, rfl⟩
      · exact .inr ⟨q, hq⟩
    · refine rel_bind (matchingClose?_moved hb.braces hb'.braces ho)
        fun closing closing' _ hc => .some fun hopening => ?_
      simp only at hopening
      have hstart := (classBodyFrom_spec hbody).1
      obtain ⟨hle, rfl⟩ : t.elim next Range.stop ≤ a.length ∧ t' = t := by
        rcases ht' with hfront | ⟨q, hpos, hq, -⟩
        · exact hfront
        · omega
      refine ⟨ho, hc, .inl rfl, ⟨hnameStop, fun r hr => ?_⟩, ?_⟩
      · obtain rfl : t' = some r := hr
        exact hle
      · simp only [List.append_assoc, window_append_left hnameStop]

/-- A class whose keyword stands in code that has ended. -/
theorem classAt?_ended {n keyword : Nat} (ha : a.EndsAt n) (hb : Passed a n b)
    (hb' : Passed a n b') (hkeyword : keyword ∈ wordPositions "class".toList a) :
    Option.Rel (fun l l' => l.opening ≤ (a ++ b).length → Exchanged a b b' c l l')
      ((a ++ b ++ c).classAt? keyword) ((a ++ b' ++ c).classAt? keyword) := by
  have hlt := ha.lt
  have hword : keyword + "class".length ≤ n :=
    @EndsAt.word_le _ _ ha "class".toList (by decide) (by decide) _ hkeyword
  obtain ⟨hnameStart, -⟩ := ha.skipBlanks hword []
  obtain ⟨hnameStop, -⟩ := ha.identEnd hnameStart []
  obtain ⟨hnext, -⟩ := ha.skipBlanks hnameStop []
  refine classAt?_of_front (Nat.le_of_lt hlt) hb hb'
    (fun r t ht hle => ha.typeParams?_le hnext ht hle) (by omega) (by omega) (by omega)
    fun l _ => ⟨(ha.skipBlanks hword _).2, (ha.identEnd hnameStart _).2,
      (ha.skipBlanks hnameStop _).2⟩

/-- A keyword behind which nothing but blanks stands before what no name begins with. -/
theorem classAt?_eq_none_of_halting {keyword : Nat} {l : Code} (h : Halting l)
    (hword : keyword + "class".length ≤ a.length)
    (hblank : a.length ≤ a.skipBlanks (keyword + "class".length) a.length) :
    (a ++ l).classAt? keyword = none := by
  rcases h.skipBlanks hword with ⟨hlt, -⟩ | ⟨-, q, d, hskip, hd, hident, -⟩
  · omega
  have hlt := (List.getElem?_eq_some_iff.mp hd).1
  have hempty : (a ++ l).window (a.length + q)
      ((a ++ l).identEnd (a.length + q) (a ++ l).length) = [] := by
    rw [Code.identEnd, window_length, List.drop_eq_getElem_cons hlt,
      (List.getElem?_eq_some_iff.mp hd).2, leading_cons, hident]
    exact window_of_le (Nat.le_refl _)
  rw [classAt?, hskip, hempty]
  rfl

/-- A class whose name is followed by nothing but blanks before what no name goes on into: its body
opens there or behind it. -/
theorem exists_classAt?_of_halting {keyword nameStart nameStop : Nat} {l : Code} (h : Halting l)
    (hword : keyword + "class".length ≤ a.length) (hnameStop : nameStop ≤ a.length)
    (hnamed : (a ++ l).skipBlanks (keyword + "class".length) (a ++ l).length = nameStart)
    (hstops : (a ++ l).identEnd nameStart (a ++ l).length = nameStop)
    (hblank : a.length ≤ a.skipBlanks nameStop a.length) :
    ∃ next, a.length ≤ next ∧ (a ++ l).classAt? keyword =
      if (a.window nameStart nameStop).isEmpty ||
        a.window nameStart nameStop == "where".toList then none
      else (classBodyFrom 0 a.length l).bind fun opening =>
        (matchingClose? '{' '}' (a ++ l) opening).bind fun closing =>
        some
          { range := ⟨a.declarationStart keyword, closing + 1⟩
            header := ⟨a.declarationStart keyword, opening⟩
            modifiers := a.classModifiers (a.declarationStart keyword) keyword
            name := ⟨nameStart, nameStop⟩
            typeParams := none
            tail := ⟨next, opening⟩
            opening, closing
            members := ((a ++ l).memberRanges (opening + 1) closing).map
              ((a ++ l).memberLayout (a.window nameStart nameStop)) } := by
  rcases h.skipBlanks hnameStop with ⟨hlt, -⟩ | ⟨-, q, d, hskip, hd, -, hangle, hbody⟩
  · omega
  have htype : (a ++ l).typeParams? (a.length + q) = some none := by
    simp [typeParams?, hd, hangle]
  refine ⟨a.length + q, Nat.le_add_right .., ?_⟩
  rw [classAt?, hnamed, hstops, hskip, window_append_left hnameStop,
    declarationStart_append (by omega)]
  simp only [classModifiers, window_append_left (show keyword ≤ a.length by omega), htype,
    Option.bind_eq_bind, Option.bind_some, Option.elim_none, hbody]

/-- A class whose keyword stands before what no name goes on into. -/
theorem classAt?_halting {keyword : Nat} (hb : Passed a a.length b) (hb' : Passed a a.length b')
    (h : ∀ l : Code, l = b ∨ l = b' → Halting (l ++ c))
    (hkeyword : keyword ∈ wordPositions "class".toList a) :
    Option.Rel (fun l l' => l.opening ≤ (a ++ b).length → Exchanged a b b' c l l')
      ((a ++ b ++ c).classAt? keyword) ((a ++ b' ++ c).classAt? keyword) := by
  have hword : keyword + "class".length ≤ a.length :=
    ((mem_wordPositions_iff (by decide) (by decide)).mp hkeyword).shows.length_le (by decide)
  have hidentEnd : ∀ {i : Nat}, i ≤ a.length → a.identEnd i a.length ≤ a.length := fun hi =>
    (run_spec isIdentCell hi (Nat.le_refl _)).1
  rcases Nat.lt_or_ge (a.skipBlanks (keyword + "class".length) a.length) a.length with
    hnameStart | hnameStart
  · have hnamed : ∀ l : Code, l = b ∨ l = b' →
        (a ++ (l ++ c)).skipBlanks (keyword + "class".length) (a ++ (l ++ c)).length =
          a.skipBlanks (keyword + "class".length) a.length := by
      intro l hl
      rcases (h l hl).skipBlanks hword with ⟨-, heq⟩ | ⟨heq, -⟩
      · exact heq
      · omega
    generalize a.skipBlanks (keyword + "class".length) a.length = nameStart at *
    have hnameStop := hidentEnd (Nat.le_of_lt hnameStart)
    have hstops := fun l hl => (h l hl).identEnd (Nat.le_of_lt hnameStart)
    generalize a.identEnd nameStart a.length = nameStop at *
    rcases Nat.lt_or_ge (a.skipBlanks nameStop a.length) a.length with hnext | hnext
    · refine classAt?_of_front (Nat.le_refl _) hb hb' (fun _ _ _ hle => hle) (by omega) hnameStop
        hnext fun l hl => ⟨hnamed l hl, hstops l hl, ?_⟩
      rcases (h l hl).skipBlanks hnameStop with ⟨-, heq⟩ | ⟨heq, -⟩
      · exact heq
      · omega
    · have hclass := fun l hl => exists_classAt?_of_halting (h l hl) hword hnameStop (hnamed l hl)
        (hstops l hl) hnext
      obtain ⟨next, hnext, hold⟩ := hclass b (.inl rfl)
      obtain ⟨next', hnext', hnew⟩ := hclass b' (.inr rfl)
      rw [List.append_assoc, List.append_assoc, hold, hnew]
      split
      · exact .none
      · have hmoved := classBodyFrom_moved (c := c) (Nat.le_refl _) hb hb'
          (.inl ⟨Nat.le_refl a.length, rfl⟩)
        simp only [List.append_assoc, List.drop_left] at hmoved
        refine rel_bind hmoved fun opening opening' hopening ho => ?_
        have hcloses := matchingClose?_moved (c := c) hb.braces hb'.braces ho
        simp only [List.append_assoc] at hcloses
        refine rel_bind hcloses fun closing closing' _ hc => .some fun _ => ?_
        refine ⟨ho, hc, .inr ⟨hnext, hnext'⟩, ⟨hnameStop, by simp⟩, ?_⟩
        simp only [List.append_assoc, window_append_left hnameStop]
  · have hnone := fun l hl => classAt?_eq_none_of_halting (h l hl) hword hnameStart
    rw [List.append_assoc, List.append_assoc, hnone b (.inl rfl), hnone b' (.inr rfl)]
    exact .none

theorem typeParams?_behind (u y : Code) (q : Nat) :
    Option.Rel (fun t s => t.elim (u.length + q) Range.stop = u.length + s.elim q Range.stop)
      ((u ++ y).typeParams? (u.length + q)) (y.typeParams? q) := by
  have hget : (u ++ y)[u.length + q]? = y[q]? := by
    rw [List.getElem?_append_right (Nat.le_add_right ..), Nat.add_sub_cancel_left]
  have hclose := (shows_right u y).matchingClose? '<' '>' (i := q) (Nat.le_refl y.length)
  rw [← List.length_append, List.take_length, List.take_length] at hclose
  simp only [typeParams?, hget, hclose]
  split
  · cases matchingClose? '<' '>' y q with
    | none => exact .none
    | some p => exact .some rfl
  · exact .some rfl

/-- Behind the lead, whether a keyword declares a class does not depend on what precedes it. -/
theorem classAt?_behind (u : Code) {y : Code} {q : Nat} (hq : q + "class".length ≤ y.length) :
    Option.Rel (fun l _ => u.length < l.opening) ((u ++ y).classAt? (u.length + q))
      (y.classAt? q) := by
  have hshows := shows_right u y
  have hle := Nat.le_refl y.length
  simp only [classAt?, List.length_append, Nat.add_assoc, hshows.skipBlanks hle,
    hshows.identEnd hle]
  obtain ⟨hstart, -, -⟩ := run_spec isLayoutBlank hq hle
  obtain ⟨hstop, -, -⟩ := run_spec isIdentCell hstart hle
  rw [← Code.skipBlanks] at hstart hstop
  rw [← Code.identEnd] at hstop
  have hfrom : q + "class".length ≤ y.skipBlanks (q + "class".length) y.length :=
    Nat.le_add_right ..
  generalize y.skipBlanks (q + "class".length) y.length = nameStart at *
  have hname : nameStart ≤ y.identEnd nameStart y.length := Nat.le_add_right ..
  generalize y.identEnd nameStart y.length = nameStop at *
  rw [hshows.window hstop]
  split
  · exact .none
  · have hnext : nameStop ≤ y.skipBlanks nameStop y.length := Nat.le_add_right ..
    generalize y.skipBlanks nameStop y.length = next at *
    refine rel_bind (typeParams?_behind u y next) fun t t' htype ht => ?_
    have hbehind := le_of_typeParams? htype
    have hbody : Option.Rel (fun o o' => o = u.length + o')
        (classBodyFrom 0 (t.elim (u.length + next) Range.stop)
          ((u ++ y).drop (t.elim (u.length + next) Range.stop)))
        (classBodyFrom 0 (t'.elim next Range.stop) (y.drop (t'.elim next Range.stop))) := by
      rw [ht, ← List.drop_drop, List.drop_left, classBodyFrom_shift]
      cases classBodyFrom 0 (t'.elim next Range.stop) (y.drop (t'.elim next Range.stop)) with
      | none => exact .none
      | some o => exact .some rfl
    refine rel_bind hbody fun o o' hopening ho => ?_
    have hafter := (classBodyFrom_spec hopening).1
    have hclose := hshows.matchingClose? '{' '}' (i := o') hle
    rw [← List.length_append, List.take_length, List.take_length, ← ho] at hclose
    rw [hclose]
    cases matchingClose? '{' '}' y o' with
    | none => exact .none
    | some p =>
      have hword : 0 < "class".length := by decide
      exact .some (by simp only; omega)

/-- The layouts of the classes whose keywords stand before or behind code that declares none. -/
theorem classLayouts_silent {l : Code} (hl : Silent a l c) (ha : Apart a (l ++ c)) (hc : Apart l c) :
    (a ++ l ++ c).classLayouts =
      (wordPositions "class".toList a).filterMap (a ++ l ++ c).classAt? ++
        (wordPositions "class".toList c).filterMap fun p =>
          (a ++ l ++ c).classAt? ((a ++ l).length + p) := by
  have hclass : "class".toList ≠ [] ∧ ∀ d ∈ "class".toList, isIdentCell d = true := by decide
  have hmute : ((wordPositions "class".toList l).map (a.length + ·)).filterMap
      (a ++ l ++ c).classAt? = [] := by
    rw [List.filterMap_eq_nil_iff]
    intro p hp
    obtain ⟨q, hq, rfl⟩ := List.mem_map.mp hp
    exact hl q hq
  have hpositions : wordPositions "class".toList (a ++ l ++ c) =
      wordPositions "class".toList a ++ ((wordPositions "class".toList l).map (a.length + ·) ++
        (wordPositions "class".toList c).map ((a ++ l).length + ·)) := by
    rw [List.append_assoc, wordPositions_append hclass.1 hclass.2 ha,
      wordPositions_append hclass.1 hclass.2 hc, List.map_append, List.map_map]
    congr 3
    funext p
    simp only [Function.comp, List.length_append, Nat.add_assoc]
  rw [classLayouts, hpositions, List.filterMap_append, List.filterMap_append, hmute,
    List.nil_append, List.filterMap_map]
  rfl

/-- Parts that may stand for one another between two pieces of code, whatever classes these
declare. -/
structure Swappable (a b b' c : Code) (n : Nat) : Prop where
  old : Passed a n b
  new : Passed a n b'
  silent_old : Silent a b c
  silent_new : Silent a b' c
  apart_old : Apart b c
  apart_new : Apart b' c
  front : a.EndsAt n ∨ n = a.length ∧ ∀ l : Code, l = b ∨ l = b' → Halting (l ++ c)

/-- Exchanging one part for another exchanges the layouts one by one. -/
theorem classLayouts_exchanged {n : Nat} (h : Swappable a b b' c n) :
    List.Forall₂ (fun l l' => l.opening ≤ (a ++ b).length → Exchanged a b b' c l l')
      (a ++ b ++ c).classLayouts (a ++ b' ++ c).classLayouts := by
  have hclass : "class".toList ≠ [] ∧ ∀ d ∈ "class".toList, isIdentCell d = true := by decide
  have hapart : ∀ l : Code, l = b ∨ l = b' → Apart a (l ++ c) := by
    intro l hl
    rcases h.front with ha | ⟨-, hhalting⟩
    · exact ha.apart _
    · exact (hhalting l hl).apart a
  rw [classLayouts_silent h.silent_old (hapart b (.inl rfl)) h.apart_old,
    classLayouts_silent h.silent_new (hapart b' (.inr rfl)) h.apart_new]
  refine List.rel_append ?_ ?_
  · refine forall₂_filterMap fun keyword hkeyword => ?_
    rcases h.front with ha | ⟨rfl, hhalting⟩
    · exact classAt?_ended ha h.old h.new hkeyword
    · exact classAt?_halting h.old h.new hhalting hkeyword
  · refine forall₂_filterMap fun q hq => ?_
    have hle : q + "class".length ≤ c.length :=
      ((mem_wordPositions_iff hclass.1 hclass.2).mp hq).shows.length_le hclass.1
    have h := classAt?_behind (a ++ b) hle
    have h' := classAt?_behind (a ++ b') hle
    revert h h'
    generalize (a ++ b ++ c).classAt? ((a ++ b).length + q) = o
    generalize (a ++ b' ++ c).classAt? ((a ++ b').length + q) = o'
    generalize c.classAt? q = m
    rintro (⟨h⟩ | _) (_ | _)
    · exact .some fun hle => absurd hle (Nat.not_le.mpr h)
    · exact .none

end

end ClassRefactor.Code
