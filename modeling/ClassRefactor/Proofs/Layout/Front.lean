import ClassRefactor.Proofs.Exchange.Member

/-!
# Members with another end

Scans that end in the front part of some code end there whatever follows it. So a constructor keeps
its layout up to the place from which on its code is exchanged.
-/

namespace ClassRefactor.Code

section

variable {l r : Code}

/-- A delimiter is closed in the front part if it is closed there in the whole. -/
theorem matchingClose?_front {opening closing : Char} {i n : Nat} :
    matchingClose? opening closing l i = some n ↔
      matchingClose? opening closing (l ++ r) i = some n ∧ n < l.length := by
  rcases Nat.lt_or_ge i l.length with hlt | hge
  · have hdrop : l.drop i = l[i] :: l.drop (i + 1) := List.drop_eq_getElem_cons hlt
    have hlen : l.length = i + 1 + (l.drop (i + 1)).length := by rw [List.length_drop]; omega
    rw [matchingClose?, matchingClose?, List.drop_append_of_le_length (Nat.le_of_lt hlt), hdrop,
      List.cons_append]
    simp only
    split
    · simp only [Option.map_eq_some_iff]
      constructor
      · rintro ⟨m, hm, rfl⟩
        obtain ⟨hm, hlt⟩ := (closeFrom_append_iff (r := r)).mp hm
        exact ⟨⟨m, hm, rfl⟩, by omega⟩
      · rintro ⟨⟨m, hm, rfl⟩, hlt⟩
        exact ⟨m, closeFrom_append_iff.mpr ⟨hm, by omega⟩, rfl⟩
    · simp
  · rw [matchingClose?, List.drop_of_length_le hge]
    constructor
    · intro h
      cases h
    · rintro ⟨h, hlt⟩
      obtain ⟨-, hle, -⟩ := matchingClose?_spec h
      omega

/-- The decider stands behind what is passed over. -/
theorem le_of_deciderFrom {code cells : Code} {start stop angles skip i p : Nat}
    (h : code.deciderFrom start stop angles skip i cells = .at p) : i + skip ≤ p := by
  induction cells generalizing angles skip i with
  | nil => cases h
  | cons c rest ih =>
    have hnext : ∀ {angles skip : Nat},
        code.deciderFrom start stop angles skip (i + 1) rest = .at p → i + 1 + skip ≤ p := ih
    cases skip with
    | succ skip =>
      have := hnext h
      omega
    | zero =>
      simp only [deciderFrom] at h
      split at h
      · have := hnext h
        omega
      · split at h
        · have := hnext h
          omega
        · split at h
          · split at h
            · cases h
            · have := hnext h
              omega
          · split at h
            · obtain rfl := Decider.at.inj h
              omega
            · have := hnext h
              omega

/-- The kind of a member is decided in the front part as it is in the whole. -/
theorem deciderFrom_front {start angles skip i p : Nat} {cells : Code}
    (hcells : l.drop i = cells) (hstart : start ≤ i) :
    l.deciderFrom start l.length angles skip i cells = .at p ↔
      (l ++ r).deciderFrom start (l ++ r).length angles skip i (cells ++ r) = .at p ∧
        p < l.length := by
  induction cells generalizing angles skip i with
  | nil =>
    have hge := List.drop_eq_nil_iff.mp hcells
    constructor
    · intro h
      cases h
    · rintro ⟨h, hlt⟩
      have := le_of_deciderFrom h
      omega
  | cons c rest ih =>
    have hrest : l.drop (i + 1) = rest := by rw [← List.drop_drop, hcells]; rfl
    have hi : i < l.length := by
      have := congrArg List.length hcells
      rw [List.length_drop, List.length_cons] at this
      omega
    have hnext : ∀ angles skip,
        l.deciderFrom start l.length angles skip (i + 1) rest = .at p ↔
          (l ++ r).deciderFrom start (l ++ r).length angles skip (i + 1) (rest ++ r) = .at p ∧
            p < l.length := fun _ _ => ih hrest (Nat.le_succ_of_le hstart)
    cases skip with
    | succ skip => exact hnext angles skip
    | zero =>
      have htuple : (l ++ r).opensTuple start i = l.opensTuple start i := by
        have hshows : (l ++ r).Shows 0 l := List.prefix_append l r
        simpa using hshows.opensTuple hstart (Nat.le_of_lt hi)
      simp only [List.cons_append, deciderFrom, List.take_length, htuple]
      split
      · exact hnext _ _
      · split
        · exact hnext _ _
        · split
          · cases hclose : matchingClose? '(' ')' l i with
            | some close =>
              rw [(matchingClose?_front.mp hclose).1]
              exact hnext _ _
            | none =>
              constructor
              · intro h
                simp only at h
                cases h
              · rintro ⟨h, hlt⟩
                cases hwhole : matchingClose? '(' ')' (l ++ r) i with
                | none =>
                  rw [hwhole] at h
                  simp only at h
                  cases h
                | some close =>
                  -- The parenthesis closes behind the front part, so the decider stands there too.
                  rw [hwhole] at h
                  have hle := le_of_deciderFrom h
                  have hbehind : l.length ≤ close := by
                    by_contra hin
                    rw [matchingClose?_front.mpr ⟨hwhole, by omega⟩] at hclose
                    cases hclose
                  omega
          · split
            · exact ⟨fun h => ⟨h, by obtain rfl := Decider.at.inj h; exact hi⟩, And.left⟩
            · exact hnext _ _

/-- The body begins behind what is passed over, unless the code ends before. -/
theorem le_of_bodyStartFrom {code cells : Code} {stop skip i p : Nat}
    (h : code.bodyStartFrom stop skip i cells = some p) :
    i + min skip cells.length ≤ p := by
  induction cells generalizing skip i with
  | nil =>
    obtain rfl := Option.some.inj h
    simp
  | cons c rest ih =>
    have hnext : ∀ {skip : Nat}, code.bodyStartFrom stop skip (i + 1) rest = some p →
        i + 1 + min skip rest.length ≤ p := ih
    rw [List.length_cons]
    cases skip with
    | succ skip =>
      have := hnext h
      omega
    | zero =>
      simp only [bodyStartFrom] at h
      split at h
      · obtain rfl := Option.some.inj h
        omega
      · split at h
        · split at h
          · cases h
          · have := hnext h
            omega
        · have := hnext h
          omega

/-- An equals sign is passed unless it begins an arrow. -/
theorem bodyStartFrom_sign {code : Code} {stop i p : Nat} (hne : i ≠ p) (cells : Code) :
    code.bodyStartFrom stop 0 i ('=' :: cells) = some p ↔
      code[i + 1]? ≠ some '>' ∧ code.bodyStartFrom stop 0 (i + 1) cells = some p := by
  rw [bodyStartFrom]
  by_cases harrow : code[i + 1]? = some '>'
  · simp [harrow, hne]
  · simp [harrow]

/-- A parenthesis that is closed behind the front part hides the rest of that part. -/
theorem not_bodyStartFrom_of_unclosed {i p : Nat} {rest : Code} (hrest : l.drop (i + 1) = rest)
    (hp : p < l.length) (hclose : matchingClose? '(' ')' l i = none) {close : Nat}
    (hwhole : matchingClose? '(' ')' (l ++ r) i = some close) (stop : Nat) :
    (l ++ r).bodyStartFrom stop (close - i) (i + 1) (rest ++ r) ≠ some p := by
  intro h
  have hle := le_of_bodyStartFrom h
  have hlen := congrArg List.length hrest
  rw [List.length_drop] at hlen
  have hbehind : l.length ≤ close := by
    by_contra hin
    rw [matchingClose?_front.mpr ⟨hwhole, by omega⟩] at hclose
    cases hclose
  rw [List.length_append] at hle
  omega

/-- A body that opens in the front part is found there as it is in the whole. -/
theorem bodyStartFrom_front {skip i p : Nat} {cells : Code} (hcells : l.drop i = cells)
    (hbrace : l[p]? = some '{') :
    l.bodyStartFrom l.length skip i cells = some p ↔
      (l ++ r).bodyStartFrom (l ++ r).length skip i (cells ++ r) = some p := by
  have hp : p < l.length := (List.getElem?_eq_some_iff.mp hbrace).1
  induction cells generalizing skip i with
  | nil =>
    have hge := List.drop_eq_nil_iff.mp hcells
    constructor
    · intro h
      have := le_of_bodyStartFrom h
      omega
    · intro h
      have := le_of_bodyStartFrom h
      omega
  | cons c rest ih =>
    have hrest : l.drop (i + 1) = rest := by rw [← List.drop_drop, hcells]; rfl
    have hc : l[i]? = some c := by rw [← List.head?_drop, hcells]; rfl
    have hnext : ∀ skip, l.bodyStartFrom l.length skip (i + 1) rest = some p ↔
        (l ++ r).bodyStartFrom (l ++ r).length skip (i + 1) (rest ++ r) = some p :=
      fun _ => ih hrest
    cases skip with
    | succ skip => exact hnext skip
    | zero =>
      by_cases hopens : c = '{' ∨ c = ';'
      · have hfound : ∀ (code : Code) (stop : Nat) (cells : Code),
            code.bodyStartFrom stop 0 i (c :: cells) = some i := by
          intro code stop cells
          rcases hopens with rfl | rfl <;> simp [bodyStartFrom]
        rw [List.cons_append, hfound, hfound]
      · have hno : (c == '{' || c == ';') = false := by simpa using hopens
        by_cases heq : c = '='
        · -- An arrow is no brace, so it does not matter whether this is one.
          subst heq
          have hne : i ≠ p := by
            rintro rfl
            rw [hc] at hbrace
            exact absurd (Option.some.inj hbrace) (by decide)
          rw [List.cons_append, bodyStartFrom_sign hne, bodyStartFrom_sign hne, hnext 0]
          rcases Nat.lt_or_ge (i + 1) l.length with hin | hout
          · rw [List.getElem?_append_left hin]
          · -- Nothing of the front part is left behind the sign.
            refine and_congr_left fun h => ?_
            have := le_of_bodyStartFrom h
            omega
        · have harrow : ∀ next : Option Char,
              (c == '{' || c == ';' || c == '=' && next == some '>') = false := by
            intro next
            rw [hno, beq_eq_false_iff_ne.mpr heq]
            rfl
          rw [List.cons_append, bodyStartFrom, bodyStartFrom]
          simp only [harrow, Bool.false_eq_true, if_false, List.take_length]
          split
          · cases hclose : matchingClose? '(' ')' l i with
            | some close =>
              rw [(matchingClose?_front.mp hclose).1]
              exact hnext _
            | none =>
              cases hwhole : matchingClose? '(' ')' (l ++ r) i with
              | none => simp
              | some close => simp [not_bodyStartFrom_of_unclosed hrest hp hclose hwhole]
          · exact hnext _

end

/-- How the front of a constructor is found in its member, up to the parenthesis that opens its
parameters. Its attributes end at `start`. -/
structure Headed (x className : Code) (start : Nat) (k : CallableLayout) : Prop where
  attributes : x.skipAttributes 0 x.length = start
  decider : x.deciderFrom start x.length 0 0 start (x.drop start) = .at k.opening
  undeclared : (declarationKeywords.any fun w =>
    containsWord w.toList (x.window start k.opening)) = false
  opens : x[k.opening]? = some '('
  name : x.callableName? start k.opening = some (k.name, k.typeParams)
  no_tilde : ¬(start < k.name.start && x[k.name.start - 1]? == some '~') = true
  lead : k.lead = ⟨x.skipBlanks start k.name.start, k.name.start⟩
  modifiers : x.modifiers memberModifiers start k.name.start = (k.modifiers, k.result.start)
  result : k.result.stop = k.name.start
  white : x.isWhiteBetween k.result.start k.result.stop = true
  named : x.window k.name.start k.name.stop = className

/-- How a constructor is found in its member. -/
structure ConstructorAt (x className : Code) (start : Nat) (k : CallableLayout) : Prop
    extends Headed x className start k where
  closing : matchingClose? '(' ')' x k.opening = some k.closing
  params : x.parameters? k.opening k.closing = some k.params
  tail : k.tail.start = k.closing + 1
  bodyStart : x.bodyStartFrom x.length 0 (k.closing + 1) (x.drop (k.closing + 1)) =
    some k.tail.stop
  body : x.body? k.tail.stop x.length = some k.body

theorem constructorAt_of_memberLayout {x className : Code} {k : CallableLayout}
    (h : (x.memberLayout className ⟨0, x.length⟩).shape = .constructor k) :
    ∃ start, ConstructorAt x className start k := by
  obtain ⟨pos, hdecider, hundeclared, hopen, hcallable⟩ :=
    memberLayout_callable? (c := k) (by rw [h]; rfl)
  rw [h] at hcallable
  simp only [window_length] at hdecider
  simp only [callable?, Option.bind_eq_bind, Option.bind_eq_some_iff, List.take_length,
    window_length] at hcallable
  obtain ⟨⟨name, typeParams⟩, hname, hcallable⟩ := hcallable
  simp only at hcallable
  split at hcallable
  · cases hcallable
  rename_i htilde
  simp only [Option.bind_eq_some_iff] at hcallable
  obtain ⟨closing, hclosing, params, hparams, bodyStart, hbodyStart, body, hbody, hshape⟩ := hcallable
  obtain ⟨-, -, hcell⟩ := matchingClose?_spec hclosing
  have hclt : closing < x.length := (List.getElem?_eq_some_iff.mp hcell).1
  have hle : bodyStart ≤ x.length :=
    (bodyStartFrom_spec (Nat.le_refl _) hclt (window_length ..) hbodyStart).2.le
  rw [Nat.min_eq_left hle] at hshape
  split at hshape
  · rename_i hwhite
    split at hshape
    · rename_i hnamed
      cases hshape
      exact ⟨_, ⟨rfl, hdecider, hundeclared, hopen, hname, htilde, rfl, rfl, rfl, hwhite,
        beq_iff_eq.mp hnamed⟩, hclosing, hparams, rfl, hbodyStart, hbody⟩
    · cases hshape
  · cases hshape

namespace Headed

section

variable {x className : Code} {start : Nat} {k : CallableLayout} (h : Headed x className start k)
include h

theorem name_le : start ≤ k.name.start ∧ k.name.start ≤ k.name.stop ∧ k.name.stop ≤ k.opening := by
  obtain ⟨width, hwidth, hne, hstart, -⟩ := callableName?_eq_some_iff.mp h.name
  have hbound := trailing_le isNameCell (x.window start k.name.stop)
  rw [length_window, ← hwidth] at hbound
  exact ⟨by omega, (callableName?_stop_le h.name).1, (callableName?_stop_le h.name).2⟩

/-- A constructor begins, behind its attributes, with a modifier or its name. -/
theorem first : ∃ d, x[start]? = some d ∧ isLayoutBlank d = false ∧ d ≠ '[' := by
  have hlt : start < x.length := by
    have := h.name_le
    have := (List.getElem?_eq_some_iff.mp h.opens).1
    omega
  have hblank : ∃ d, x[start]? = some d ∧ isLayoutBlank d = false := by
    have hskip := h.attributes
    rw [skipAttributes] at hskip
    have := @attributesFrom_nonblank x 0 0 0 x.length _ rfl (Nat.le_refl x.length)
      (fun hne => absurd rfl hne) (by rw [hskip]; exact hlt)
    rwa [hskip] at this
  obtain ⟨d, hd, hsolid⟩ := hblank
  refine ⟨d, hd, hsolid, ?_⟩
  rintro rfl
  obtain ⟨hle, -, hstop⟩ := h.name_le
  rcases Nat.lt_or_eq_of_le hle with hbefore | heq
  · -- A bracket is no modifier, and not white.
    have hwindow : x.window start k.name.start =
        '[' :: x.window (start + 1) k.name.start := by
      rw [window, window, List.drop_eq_getElem_cons hlt, (List.getElem?_eq_some_iff.mp hd).2,
        show k.name.start - start = k.name.start - (start + 1) + 1 by omega, List.take_succ_cons]
    have hnone : k.result.start = start := by
      have hmodifiers := h.modifiers
      rw [Code.modifiers, hwindow] at hmodifiers
      exact (congrArg Prod.snd hmodifiers).symm
    have hwhite := h.white
    rw [hnone, h.result, isWhiteBetween, hwindow] at hwhite
    exact absurd (List.all_eq_true.mp hwhite '[' List.mem_cons_self) (by decide)
  · obtain ⟨width, hwidth, hne, hstart, -⟩ := callableName?_eq_some_iff.mp h.name
    have hbound := trailing_le isNameCell (x.window start k.name.stop)
    rw [length_window, ← hwidth] at hbound
    have hmem : '[' ∈ x.window start k.name.stop := by
      refine List.mem_iff_getElem?.mpr ⟨0, ?_⟩
      rw [getElem?_window_of_lt (by omega), Nat.add_zero, hd]
    have hlen : trailing isNameCell (x.window start k.name.stop) =
        (x.window start k.name.stop).length := by
      rw [length_window, ← hwidth]
      omega
    exact absurd (all_of_trailing_eq hlen '[' hmem) (by decide)

end

/-- The front of a constructor is found as before if the code behind it is exchanged. -/
theorem front {l r className : Code} {start : Nat} {k : CallableLayout}
    (h : Headed (l ++ r) className start k) (hlt : k.opening < l.length) (r' : Code) :
    Headed (l ++ r') className start k := by
  obtain ⟨hstart, hname, hstop⟩ := h.name_le
  have hwindow : ∀ {i j : Nat}, j ≤ l.length → ∀ z, (l ++ z).window i j = l.window i j :=
    fun hj z => window_append_left hj z
  have hget : ∀ {i : Nat}, i < l.length → ∀ z, (l ++ z)[i]? = l[i]? :=
    fun hi _ => List.getElem?_append_left hi
  have hdrop : ∀ z, (l ++ z).drop start = l.drop start ++ z :=
    fun z => List.drop_append_of_le_length (by omega)
  have hcallable : ∀ z, (l ++ z).callableName? start k.opening = l.callableName? start k.opening := by
    intro z
    have hshows : (l ++ z).Shows 0 l := List.prefix_append l z
    have := @Shows.callableName? _ _ _ hshows start _ (Nat.le_of_lt hlt)
    simp only [Nat.zero_add] at this
    rw [this]
    cases l.callableName? start k.opening with
    | none => rfl
    | some p =>
      obtain ⟨name, typeParams⟩ := p
      cases typeParams <;> simp
  have hfirst : ∀ z, ∃ d, (l.drop start ++ z).head? = some d ∧ (l ++ r)[start]? = some d := by
    intro z
    have hin : start < l.length := by omega
    rw [hget hin, List.drop_eq_getElem_cons hin, List.getElem?_eq_getElem hin]
    exact ⟨_, rfl, rfl⟩
  constructor
  · -- The declaration begins with the same cell.
    have hsplit : ∀ z, (l ++ z).skipAttributes 0 (l ++ z).length =
        attributesFrom 0 0 0 (l.take start ++ (l.drop start ++ z)) := by
      intro z
      rw [skipAttributes, window_length, List.drop_zero, ← List.append_assoc,
        List.take_append_drop]
    have hlen : (l.take start).length = start := List.length_take_of_le (by omega)
    have hbefore := h.attributes
    rw [hsplit] at hbefore
    rw [hsplit]
    have := @attributesFrom_exchanged 0 0 0 (l.take start) (l.drop start ++ r) (l.drop start ++ r')
      (by rw [hbefore, hlen, Nat.zero_add]) (fun hne => absurd rfl hne) ?_
    · rwa [hlen, Nat.zero_add] at this
    · obtain ⟨d, hd, hblank, hne⟩ := h.first
      obtain ⟨e, he, he'⟩ := hfirst r'
      rw [hd] at he'
      obtain rfl := Option.some.inj he'
      exact ⟨d, he, hblank, hne⟩
  · have hdecider := h.decider
    rw [hdrop] at hdecider ⊢
    exact ((deciderFrom_front rfl (Nat.le_refl start)).mp
      ((deciderFrom_front rfl (Nat.le_refl start)).mpr ⟨hdecider, hlt⟩)).1
  · have hundeclared := h.undeclared
    rw [hwindow (Nat.le_of_lt hlt)] at hundeclared ⊢
    exact hundeclared
  · rw [hget hlt, ← hget hlt r]
    exact h.opens
  · rw [hcallable, ← hcallable r]
    exact h.name
  · rw [hget (by omega), ← hget (by omega) r]
    exact h.no_tilde
  · have hlead := h.lead
    rw [Code.skipBlanks, hwindow (by omega)] at hlead ⊢
    exact hlead
  · have hmodifiers := h.modifiers
    rw [Code.modifiers, hwindow (by omega)] at hmodifiers ⊢
    exact hmodifiers
  · exact h.result
  · have hwhite := h.white
    rw [isWhiteBetween, hwindow (by rw [h.result]; omega)] at hwhite ⊢
    exact hwhite
  · rw [hwindow (by omega), ← hwindow (by omega) r]
    exact h.named

end Headed

section

variable {x className : Code} {start : Nat} {k : CallableLayout}
  (h : ConstructorAt x className start k)
include h

namespace ConstructorAt

theorem memberLayout : x.memberLayout className ⟨0, x.length⟩ =
    { range := ⟨0, x.length⟩, signature := ⟨start, max (k.closing + 1) start⟩
      shape := .constructor k } := by
  have hclt : k.closing < x.length := (List.getElem?_eq_some_iff.mp
    (matchingClose?_spec h.closing).2.2).1
  have hle : k.tail.stop ≤ x.length :=
    (bodyStartFrom_spec (Nat.le_refl _) hclt (window_length ..) h.bodyStart).2.le
  have hresult : x.isWhiteBetween k.result.start k.name.start = true := by
    rw [← h.result]
    exact h.white
  have hparts : k = { k with
      lead := ⟨x.skipBlanks start k.name.start, k.name.start⟩
      result := ⟨k.result.start, k.name.start⟩
      tail := ⟨k.closing + 1, k.tail.stop⟩ } := by
    rw [← h.lead, ← h.result, ← h.tail]
  have hcallable : x.callable? className start k.opening x.length = some (.constructor k) := by
    rw [hparts]
    simp only [callable?, Option.bind_eq_bind, List.take_length, window_length, h.name,
      Option.bind_some, h.no_tilde, Bool.false_eq_true, if_false, h.modifiers, h.closing, h.params,
      h.bodyStart, h.body, hresult, h.named, beq_self_eq_true, if_true, Nat.min_eq_left hle]
  simp only [Code.memberLayout, h.attributes, window_length, h.decider, h.undeclared,
    Bool.false_eq_true, if_false, h.opens, beq_self_eq_true, if_true, hcallable]
  rfl

/-- The block of a constructor opens behind its parameters and closes in the member. -/
theorem block {b : BlockLayout} (hb : k.body = .block b) :
    b.opening = k.tail.stop ∧ k.closing < b.opening ∧ x[b.opening]? = some '{' ∧
      matchingClose? '{' '}' x b.opening = some b.closing ∧
      b = x.blockLayout b.opening b.closing := by
  have hbody := h.body
  have hclt : k.closing < x.length := (List.getElem?_eq_some_iff.mp
    (matchingClose?_spec h.closing).2.2).1
  obtain ⟨hle, -⟩ := bodyStartFrom_spec (Nat.le_refl _) hclt (window_length ..) h.bodyStart
  rw [hb, body?, List.take_length] at hbody
  split at hbody
  · cases hbody
  · split at hbody
    · rename_i hbrace
      obtain ⟨n, hn, heq⟩ := Option.map_eq_some_iff.mp hbody
      obtain rfl := BodyLayout.block.inj heq
      exact ⟨rfl, hle, beq_iff_eq.mp hbrace, hn, rfl⟩
    · split at hbody <;> cases hbody

end ConstructorAt

end

namespace ConstructorAt

variable {l r className : Code} {start : Nat} {k : CallableLayout}

/-- The parameters are found as before if the code behind them is exchanged. -/
theorem parameters?_front (h : ConstructorAt (l ++ r) className start k) (hlt : k.closing < l.length)
    (r' : Code) : (l ++ r').parameters? k.opening k.closing = some k.params := by
  obtain ⟨-, hordered, hcell⟩ := matchingClose?_spec h.closing
  rw [List.getElem?_append_left hlt] at hcell
  have hfront : ∀ z, (l ++ z).parameters? k.opening k.closing =
      Code.parameters? (l.take (k.closing + 1)) k.opening k.closing := by
    intro z
    have hlen : (l.take (k.closing + 1)).length = k.closing + 1 := List.length_take_of_le hlt
    have hshows : (l ++ z).Shows 0 (l.take (k.closing + 1)) :=
      (List.take_prefix _ _).trans (List.prefix_append l z)
    -- The part ends with the parenthesis, so no operator runs on behind it.
    have hsealed : (l ++ z).Sealed (0 + (l.take (k.closing + 1)).length) := by
      intro heq
      rw [hlen, Nat.zero_add, Nat.add_sub_cancel, List.getElem?_append_left hlt, hcell] at heq
      cases heq
    have hparams := hshows.parameters? hsealed hordered (by omega)
    simpa using hparams
  rw [hfront r', ← hfront r]
  exact h.params

/-- With another end of its block, a constructor keeps all but its statements. -/
theorem withBlock (h : ConstructorAt (l ++ r) className start k) {b : BlockLayout}
    (hb : k.body = .block b) (hlt : b.opening < l.length) {r' : Code} {closing : Nat}
    (hclose : matchingClose? '{' '}' (l ++ r') b.opening = some closing) :
    ConstructorAt (l ++ r') className start
      { k with body := .block ((l ++ r').blockLayout b.opening closing) } := by
  obtain ⟨hopening, hbehind, hbrace, -⟩ := h.block hb
  have hordered := (matchingClose?_spec h.closing).2.1
  rw [List.getElem?_append_left hlt] at hbrace
  have hhead := h.toHeaded.front (by omega) r'
  have hclosing := (matchingClose?_front (r := r')).mp
    (matchingClose?_front.mpr ⟨h.closing, show k.closing < l.length by omega⟩)
  refine ⟨⟨hhead.attributes, hhead.decider, hhead.undeclared, hhead.opens, hhead.name,
    hhead.no_tilde, hhead.lead, hhead.modifiers, hhead.result, hhead.white, hhead.named⟩,
    hclosing.1, h.parameters?_front (by omega) r', h.tail, ?_, ?_⟩
  · have hdrop : ∀ z, (l ++ z).drop (k.closing + 1) = l.drop (k.closing + 1) ++ z :=
      fun z => List.drop_append_of_le_length (by omega)
    have hstart := h.bodyStart
    rw [hdrop] at hstart ⊢
    rw [hopening] at hbrace
    exact (bodyStartFrom_front rfl hbrace).mp ((bodyStartFrom_front rfl hbrace).mpr hstart)
  · have hshort : ¬ (l ++ r').length ≤ b.opening := by
      rw [List.length_append]
      omega
    simp only [body?, ← hopening, if_neg hshort, List.getElem?_append_left hlt, hbrace,
      List.take_length, hclose, beq_self_eq_true, if_true, Option.map_some]

end ConstructorAt

end ClassRefactor.Code
