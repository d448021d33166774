import ClassRefactor.Proofs.Written.Body

/-!
# Written members

A plain field, constructor or method is found and read in the text that it is written as.
-/

namespace ClassRefactor

/-! Constructors and methods. -/

/-- The parts of a callable without its lead are read where the callable stands. -/
structure CallableLayout.Reads (s : Source) (c : CallableLayout) (name : String)
    (parameters : List Parameter) (body : Body) : Prop where
  name : s.name c.name = .ok name
  typeParams : c.typeParams = none
  params : c.params.mapM (ParameterLayout.read s) = .ok parameters
  tail : ∃ b : Text, s.text.read c.tail = .ok b ∧ ∀ d ∈ b, isWhite d = true
  body : c.body.read s = .ok body

namespace CallableLayout.Reads

variable {s whole : Source} {c : CallableLayout} {name : String} {parameters : List Parameter}
  {body : Body}

theorem shift {n : Nat} (hwithin : s.Within whole n) (h : c.Reads s name parameters body) :
    (c.shift n).Reads whole name parameters body := by
  obtain ⟨b, hb, hwhite⟩ := h.tail
  exact ⟨hwithin.name c.name _ h.name, by simp [CallableLayout.shift, h.typeParams],
    Refines.mapM hwithin.parameter c.params _ h.params, ⟨b, hwithin.text c.tail _ hb, hwhite⟩,
    hwithin.body c.body _ h.body⟩

theorem trim_eq_nil {b : Text} (h : ∀ c ∈ b, isWhite c = true) : b.trim = [] := by
  rw [Text.trim, Text.trimStart, List.dropWhile_eq_nil_iff.mpr h]
  rfl

theorem readConstructor (h : c.Reads s name parameters body) {start stop : Nat}
    (hlead : start ≤ stop) (modifiers : List String) (result : Range) :
    (c.withLead ⟨start, stop⟩ modifiers result).readConstructor s =
      .ok { name, modifiers, parameters, initializer := none, body } := by
  obtain ⟨b, hb, hwhite⟩ := h.tail
  have hnone : OpaqueText.initializer? b = none := by
    rw [OpaqueText.initializer?, trim_eq_nil hwhite]
  simp [CallableLayout.readConstructor, CallableLayout.withLead, Range.checked, hlead, h.name,
    h.params, hb, h.body, hnone, bind, Except.bind, pure, Except.pure]

theorem readMethod (h : c.Reads s name parameters body) {start stop : Nat}
    (hlead : start ≤ stop) (modifiers : List String) {result : Range} {returnType : TypeRef}
    (hresult : s.type result = .ok returnType) :
    (c.withLead ⟨start, stop⟩ modifiers result).readMethod s =
      .ok { name, modifiers, returnType, parameters, body } := by
  obtain ⟨b, hb, hwhite⟩ := h.tail
  have hnone : s.clause c.tail = .ok none := by
    simp [Source.clause, hb, trim_eq_nil hwhite, bind, Except.bind, pure, Except.pure]
  simp [CallableLayout.readMethod, CallableLayout.withLead, Range.checked, hlead, h.name,
    h.params, h.typeParams, hresult, hnone, h.body, Source.optional, bind, Except.bind, pure,
    Except.pure]

end CallableLayout.Reads

/-- A callable from its name on. -/
def renderCallable (style : Style) (name : String) (parameters : List Parameter) (body : Body) :
    Code :=
  name.toList ++ '(' :: ((renderParameters parameters).toList ++ ')' :: (body.render style).toList)

/-! A word before a parenthesis. -/

section

variable {nm rest y : Code} (hy : y = nm ++ '(' :: rest)
include hy

theorem shows_callableName : y.Shows 0 nm := by
  rw [hy]
  exact List.prefix_append _ _

theorem window_callableName : y.window 0 nm.length = nm := by
  simpa using (shows_callableName hy).window_self

variable (hident : ∀ c ∈ nm, isIdentCell c = true) (hne : nm ≠ [])
include hident hne

theorem trimBlanks_callableName : y.trimBlanks 0 nm.length = nm.length := by
  have := Code.trimBlanks_eq (shows_callableName hy) ⟨_, List.getLast?_eq_some_getLast hne,
    isLayoutBlank_eq_false_of_isIdentCell (hident _ (List.getLast_mem hne))⟩
  simpa using this

theorem getElem?_callableName : ∃ c, y[nm.length - 1]? = some c ∧ isIdentCell c = true := by
  have hpos := List.length_pos_iff.mpr hne
  refine ⟨_, ?_, hident _ (List.getLast_mem hne)⟩
  have := (shows_callableName hy).getElem? (i := nm.length - 1) (by omega)
  rw [Nat.zero_add] at this
  rw [this, ← List.getLast?_eq_getElem?]
  exact List.getLast?_eq_some_getLast hne

theorem callableName?_eq : y.callableName? 0 nm.length = some (⟨0, nm.length⟩, none) := by
  obtain ⟨c, hc, hcident⟩ := getElem?_callableName hy hident hne
  refine Code.callableName?_eq_some_iff.mpr ⟨nm.length, ?_, ?_, by simp, .inl ⟨?_, ?_, rfl⟩⟩
  · rw [window_callableName hy]
    exact (Code.trailing_all fun d hd => by simp [Code.isNameCell, hident d hd]).symm
  · simpa using hne
  · rw [trimBlanks_callableName hy hident hne, hc]
    rintro ⟨-, heq⟩
    rw [Option.some.inj heq] at hcident
    exact absurd hcident (by decide)
  · exact (trimBlanks_callableName hy hident hne).symm

/-- A word that is no modifier is a name, so no tuple opens behind it. -/
theorem opensTuple_callableName (hunknown : Code.known? memberModifiers nm = none) :
    y.opensTuple 0 nm.length = false := by
  obtain ⟨c, hc, hcident⟩ := getElem?_callableName hy hident hne
  have hangle : c ≠ '>' := by rintro rfl; exact absurd hcident (by decide)
  have hwidth : Code.trailing isIdentCell nm = nm.length := Code.trailing_all hident
  rw [Code.opensTuple, trimBlanks_callableName hy hident hne, hc]
  simp [hne, hangle, hcident, window_callableName hy, hwidth, hunknown]

theorem deciderFrom_callable (hunknown : Code.known? memberModifiers nm = none) :
    y.deciderFrom 0 y.length 0 0 0 (y.window 0 y.length) = .at nm.length := by
  have hpass : Code.passAfter 0 nm = some 0 :=
    Code.passAfter_of_isInert (fun d hd => Code.isInert_of_isIdentCell (hident d hd)) 0
  have hcells : y.window 0 y.length = nm ++ '(' :: rest := by rw [Code.window_all, hy]
  rw [hcells, Code.deciderFrom_pass hpass, Nat.zero_add, Code.deciderFrom,
    opensTuple_callableName hy hident hne hunknown]
  rfl

end

section

variable {style : Style} (hstyle : style.BlanksOnly) {name : String} (hname : PlainName name)
  {ps : List Parameter} (hps : ∀ p ∈ ps, p.Plain) {body : Body} (hbody : body.Plain) {y : Code}
  (hy : y = renderCallable style name ps body)

include hstyle hps hbody hy

/-- A written callable is found and read from its name on. -/
theorem named_read (hprinted : Printed y) :
    ∃ c, y.named? name.toList.length none name.toList.length = some c ∧
      c.Reads ⟨y, y⟩ name ps body := by
  have hparen : y.Shows name.toList.length ('(' :: ((renderParameters ps).toList ++
      ')' :: (body.render style).toList)) := by
    rw [hy, renderCallable]
    exact Code.shows_right _ _
  have hdrop : y.drop name.toList.length = '(' :: ((renderParameters ps).toList ++
      ')' :: (body.render style).toList) := by
    rw [hy, renderCallable, List.drop_left]
  have hparams : y.Shows (name.toList.length + 1) (renderParameters ps).toList :=
    (hparen.append_right (l := ['('])).append_left
  have hend : Code.closeFrom '(' ')' 0 ((renderParameters ps).toList ++
      ')' :: (body.render style).toList) = some (renderParameters ps).toList.length := by
    have := Code.closeFrom_nested (stackAfter_renderParameters hps) (.inl ⟨rfl, rfl⟩) 0
      (')' :: (body.render style).toList)
    simpa [Code.closeFrom] using this
  have hclose : Code.matchingClose? '(' ')' (y.take y.length) name.toList.length =
      some (name.toList.length + 1 + (renderParameters ps).toList.length) := by
    rw [List.take_length, Code.matchingClose?, hdrop]
    simp [hend]
  obtain ⟨params, hlayouts, hreads⟩ := parameters_read hps hprinted hparams
  have hrest : y.drop (name.toList.length + 1 + (renderParameters ps).toList.length + 1) =
      (body.render style).toList := by
    rw [Nat.add_assoc, Nat.add_assoc, ← List.drop_drop, hdrop, Nat.add_comm 1, List.drop_succ_cons,
      ← List.drop_drop, List.drop_left]
    rfl
  obtain ⟨bodyStart, layout, b, hstart, hlayout, hread, htail, hb⟩ :=
    hbody.read hstyle hprinted hrest
  refine ⟨_, by
    simp only [Code.named?, hclose, hlayouts, hstart, hlayout, Option.bind_eq_bind,
      Option.bind_some]
    rfl, ⟨?_, rfl, hreads, ⟨b, htail, fun d hd => isWhite_of_isLayoutBlank (hb d hd)⟩, hread⟩⟩
  have hname := hprinted.read (shows_callableName hy) (Nat.zero_le _)
  rw [Nat.zero_add] at hname
  simp [Source.name, hname, bind, Except.bind, pure, Except.pure]

end

/-- A member whose parameters open after its name. -/
theorem memberLayout_callable {style : Style} {name : String} {ps : List Parameter} {body : Body}
    {u x y className : Code} (hname : PlainName name)
    (hy : y = renderCallable style name ps body) (hx : x = u ++ y)
    (hpass : Code.passAfter 0 u = some 0) (hlast : ∀ c, u.getLast? = some c → c = ' ')
    (hundeclared : Code.Undeclared (u ++ name.toList))
    (hhead : ∃ c, x.head? = some c ∧ isIdentCell c = true) {shape : MemberShape}
    (hshape : x.callable? className 0 (u.length + name.toList.length) x.length = some shape) :
    ∃ signature, x.memberLayout className ⟨0, x.length⟩ =
      { range := ⟨0, x.length⟩, signature := ⟨0, signature⟩, shape } := by
  have hlength : x.length = u.length + y.length := by rw [hx, List.length_append]
  have hspace : ∀ c, u.getLast? = some c → isIdentCell c = false := by
    intro c hc
    rw [hlast c hc]
    decide
  have hfirst : ∃ c, y.head? = some c ∧ Code.isNameCell c = true := by
    obtain ⟨c, hc, hident⟩ := hname.head_ident
      ('(' :: ((renderParameters ps).toList ++ ')' :: (body.render style).toList))
    exact ⟨c, by rw [hy, renderCallable, hc], by simp [Code.isNameCell, hident]⟩
  have hdecider : x.deciderFrom 0 x.length 0 0 0 (x.window 0 x.length) =
      .at (u.length + name.toList.length) := by
    have hrest : (u ++ y).deciderFrom 0 (u.length + y.length) 0 0 (u.length + 0)
        (y.window 0 y.length) = (y.deciderFrom 0 y.length 0 0 0 (y.window 0 y.length)).shift
          u.length := Code.deciderFrom_append (Nat.zero_le u.length) hspace rfl hfirst
    rw [deciderFrom_callable hy hname.ident hname.ne_nil
      (hname.known?_eq_none (by decide)), Nat.add_zero, Code.window_all] at hrest
    rw [Code.window_all, hlength, hx, Code.deciderFrom_pass hpass, Nat.zero_add, hrest]
    rfl
  have hdeclared : x.window 0 (u.length + name.toList.length) = u ++ name.toList := by
    rw [hx, Code.window_append_right (Nat.zero_le _), window_callableName hy]
    rfl
  have hparen : x[u.length + name.toList.length]? = some '(' := by
    rw [hx, List.getElem?_append_right (by omega), Nat.add_sub_cancel_left, hy, renderCallable,
      List.getElem?_append_right (Nat.le_refl _), Nat.sub_self]
    rfl
  simp only [Code.memberLayout, Code.skipAttributes_ident hhead, hdecider, hdeclared,
    hundeclared.any_eq_false, Bool.false_eq_true, ↓reduceIte, hparen, beq_self_eq_true, hshape]
  exact ⟨_, rfl⟩

/-- The layout of a member begins and ends in order. -/
theorem MemberLayout.read_eq (s : Source) (shape : MemberShape) (stop signature : Nat) :
    MemberLayout.read s { range := ⟨0, stop⟩, signature := ⟨0, signature⟩, shape } =
      match shape with
      | .field f => do return .field (← f.read s)
      | .constructor c => do return .constructor (← c.readConstructor s)
      | .method c => do return .method (← c.readMethod s)
      | .other => do return .other (← s.opaqueText ⟨0, stop⟩) := by
  cases shape <;> rfl

theorem skipBlanks_le (code : Code) {start stop : Nat} (h : start ≤ stop) :
    code.skipBlanks start stop ≤ stop := by
  have := Code.leading_le isLayoutBlank (code.window start stop)
  rw [Code.length_window] at this
  rw [Code.skipBlanks]
  omega

section

variable {style : Style} (hstyle : style.BlanksOnly) {x : Code} (hprinted : Printed x)
include hstyle hprinted

/-- What stands before the name of a written callable decides what it is. -/
theorem callable_read {name : String} (hname : PlainName name) {ps : List Parameter}
    (hps : ∀ p ∈ ps, p.Plain) {body : Body} (hbody : body.Plain) {u : Code} (className : String)
    (hx : x = u ++ renderCallable style name ps body) (hpass : Code.passAfter 0 u = some 0)
    (hlast : ∀ c, u.getLast? = some c → c = ' ')
    (hundeclared : Code.Undeclared (u ++ name.toList))
    (hhead : ∃ c, x.head? = some c ∧ isIdentCell c = true) {modifiers : List String}
    {resultStart : Nat}
    (hmods : Code.modifiersFrom memberModifiers [] 0 0 u = (modifiers, resultStart)) :
    ∃ c : CallableLayout, c.Reads ⟨x, x⟩ name ps body ∧ ∀ shape,
      (let c := c.withLead ⟨x.skipBlanks 0 u.length, u.length⟩ modifiers ⟨resultStart, u.length⟩
        if x.isWhiteBetween resultStart u.length then
          if name == className then some (.constructor c) else none
        else some (.method c)) = some shape →
      ∃ signature, x.memberLayout className.toList ⟨0, x.length⟩ =
        { range := ⟨0, x.length⟩, signature := ⟨0, signature⟩, shape } := by
  generalize hy : renderCallable style name ps body = y at hx
  have hshows : x.Shows u.length y := by rw [hx]; exact Code.shows_right u y
  have hlength : x.length = u.length + y.length := by rw [hx, List.length_append]
  have hpart : Printed y := fun d hd => hprinted d (List.mem_of_mem_drop (hshows.subset hd))
  obtain ⟨layout, hlayout, hreads⟩ := named_read hstyle hps hbody hy.symm hpart
  refine ⟨layout.shift u.length, hreads.shift (hprinted.within hshows (by omega)),
    fun shape hshape => ?_⟩
  have hpos : name.toList.length < y.length := by
    rw [← hy, renderCallable, List.length_append, List.length_cons]
    omega
  have hspace : ∀ d, u.getLast? = some d → Code.isNameCell d = false ∧ d ≠ '~' := by
    intro d hd
    rw [hlast d hd]
    decide
  have hfound : (u ++ y).callable? className.toList 0 _ _ = _ :=
    Code.callable?_append (Nat.zero_le u.length) hspace hpos (callableName?_eq hy.symm hname.ident hname.ne_nil)
  have hsame : (name.toList == className.toList) = (name == className) := by
    rw [Bool.eq_iff_iff]
    simp [String.toList_inj]
  rw [hlayout, Option.bind_some, List.drop_zero, hmods, window_callableName hy.symm, ← hx,
    ← hlength, hsame] at hfound
  exact memberLayout_callable hname hy.symm hx hpass hlast hundeclared hhead (hfound.trans hshape)

/-- A written constructor is found and read. -/
theorem Constructor.Plain.read {className : String} (hclass : PlainName className)
    {c : Constructor} (h : c.Plain className)
    (hx : x = (renderModifiers c.modifiers).toList ++
      renderCallable style c.name c.parameters c.body) :
    (x.memberLayout className.toList ⟨0, x.length⟩).read ⟨x, x⟩ = .ok (.constructor c) := by
  have hname : PlainName c.name := h.name ▸ hclass
  have hknown := Code.known_memberModifiers
  have hhead : ∃ d, x.head? = some d ∧ isIdentCell d = true := by
    rw [hx]
    exact hknown.head h.modifiers (hname.head_ident _)
  have hmods : Code.modifiersFrom memberModifiers [] 0 0 (renderModifiers c.modifiers).toList =
      (c.modifiers, (renderModifiers c.modifiers).toList.length) := by
    have hnil : ∀ wordStart pos, Code.modifiersFrom memberModifiers [] wordStart pos [] =
        ([], pos) := fun _ _ => rfl
    simpa using hknown.modifiersFrom h.modifiers hnil 0 0
  have hpass : Code.passAfter 0 (renderModifiers c.modifiers).toList = some 0 :=
    Code.passAfter_of_isInert (hknown.isInert h.modifiers) 0
  obtain ⟨layout, hreads, hshape⟩ := callable_read hstyle hprinted hname
    h.parameters h.body className hx hpass (fun d => Code.last_renderModifiers)
    (hknown.undeclared h.modifiers (by decide) hname.undeclared) hhead hmods
  have hwhite : x.isWhiteBetween (renderModifiers c.modifiers).toList.length
      (renderModifiers c.modifiers).toList.length = true := by
    simp [Code.isWhiteBetween, Code.window]
  obtain ⟨signature, hmember⟩ := hshape _ (by
    rw [hwhite, if_pos rfl, if_pos (by rw [h.name]; exact beq_self_eq_true _)])
  rw [hmember, MemberLayout.read_eq]
  simp only [hreads.readConstructor (skipBlanks_le x (Nat.zero_le _)), bind, Except.bind, pure,
    Except.pure]
  obtain ⟨name, modifiers, parameters, initializer, body⟩ := c
  have hinitializer := h.initializer
  simp only at hinitializer
  rw [hinitializer]

/-- A written method is found and read. -/
theorem Method.Plain.read {m : Method} (h : m.Plain) (className : String)
    (hx : x = (m.renderLead).toList ++ renderCallable style m.name m.parameters m.body) :
    (x.memberLayout className.toList ⟨0, x.length⟩).read ⟨x, x⟩ = .ok (.method m) := by
  have hknown := Code.known_memberModifiers
  have hlead : m.renderLead.toList =
      (renderModifiers m.modifiers).toList ++ (m.returnType.render.toList ++ [' ']) := by
    simp [Method.renderLead, String.toList_append]
  have htype := h.returnType.wellFormed.typeText
  have hhead : ∃ d, x.head? = some d ∧ isIdentCell d = true := by
    rw [hx, hlead, List.append_assoc, List.append_assoc]
    exact hknown.head h.modifiers (h.returnType.head _)
  have hmods : Code.modifiersFrom memberModifiers [] 0 0 m.renderLead.toList =
      (m.modifiers, (renderModifiers m.modifiers).toList.length) := by
    have := hknown.modifiersFrom h.modifiers (h.returnType.modifiersFrom (by decide) []) 0 0
    rw [hlead]
    simpa using this
  have hpass : Code.passAfter 0 m.renderLead.toList = some 0 := by
    have hresult := Code.passAfter_closed htype.whole.closed h.returnType.not_mem_paren
    rw [hlead, Code.passAfter_append,
      Code.passAfter_of_isInert (hknown.isInert h.modifiers), Option.bind_some,
      Code.passAfter_append, hresult]
    rfl
  have hundeclared : Code.Undeclared (m.renderLead.toList ++ m.name.toList) := by
    rw [hlead, List.append_assoc, List.append_assoc, List.singleton_append]
    exact hknown.undeclared h.modifiers (by decide)
      (h.returnType.undeclared.split (by decide) h.name.undeclared)
  obtain ⟨layout, hreads, hshape⟩ := callable_read hstyle hprinted h.name
    h.parameters h.body className hx hpass (fun d hd => by rw [hlead] at hd; simpa using hd.symm)
    hundeclared hhead hmods
  have hend : (renderModifiers m.modifiers).toList.length +
      (m.returnType.render.toList ++ [' ']).length = m.renderLead.toList.length := by
    rw [hlead, ← List.length_append]
  have hshows : x.Shows (renderModifiers m.modifiers).toList.length
      (m.returnType.render.toList ++ [' ']) := by
    rw [hx, hlead]
    exact Code.shows_append _ _ _
  have hblack : x.isWhiteBetween (renderModifiers m.modifiers).toList.length
      m.renderLead.toList.length = false := by
    obtain ⟨c, hc, hwhite⟩ := h.returnType.wellFormed.legible.last
    rw [Code.isWhiteBetween, ← hend, hshows.window_self, List.all_eq_false]
    exact ⟨c, List.mem_append_left _ (List.mem_of_getLast? hc), by simp [hwhite]⟩
  have hresult : Source.type ⟨x, x⟩ ⟨(renderModifiers m.modifiers).toList.length,
      m.renderLead.toList.length⟩ = .ok m.returnType := by
    have hle := hshows.length_le (by simp)
    have hread := hprinted.read hshows (by omega)
    have hparse : TypeRef.parse ([] ++ m.returnType.render.toList ++ [' ']) = m.returnType :=
      h.returnType.wellFormed.legible.parse_around (by simp) (by decide)
    rw [List.nil_append] at hparse
    rw [hend] at hread
    simp only [Source.type, hread, hparse, bind, Except.bind, pure, Except.pure]
  obtain ⟨signature, hmember⟩ := hshape _ (by rw [hblack]; exact if_neg (by simp))
  rw [hmember, MemberLayout.read_eq]
  simp only [hreads.readMethod (skipBlanks_le x (Nat.zero_le _)) m.modifiers hresult, bind,
    Except.bind, pure, Except.pure]
  obtain ⟨name, typeParams, modifiers, returnType, parameters, constraints, body⟩ := m
  have htypeParams := h.typeParams
  have hconstraints := h.constraints
  simp only at htypeParams hconstraints
  rw [htypeParams, hconstraints]

end

/-! Fields. -/

/-- A further variable is found and read where it stands. -/
theorem furtherVariable_read {code : Code} {r : Range} {name : String} (hcode : Printed code)
    (hname : PlainName name) (hr : code.Stands r (' ' :: name.toList)) :
    ∃ layout, code.furtherVariable? r = some layout ∧
      layout.read ⟨code, code⟩ = .ok { name } := by
  have hwindow : code.window r.start r.stop = ' ' :: name.toList := by
    rw [hr.stop]
    exact hr.shows.window_self
  have hassign : code.assignment? r.start r.stop = none := by
    refine Code.assignment?_of_not_mem ?_
    rw [hwindow, List.mem_cons, not_or]
    exact ⟨by decide, fun hmem => absurd (hname.ident _ hmem) (by decide)⟩
  have hblack : ∀ c ∈ name.toList, isWhite c = false := fun c hc =>
    not_isWhite_of_isPlainCell (hname.cells c hc)
  have hleading : Code.leading isWhite (' ' :: name.toList) = 1 := by
    obtain ⟨c, rest, hs, -⟩ := hname.head
    have := hblack c (by simp [hs])
    simp [Code.leading, hs, this, show isWhite ' ' = true by decide]
  have htrailing : Code.trailing isWhite name.toList = 0 := by
    obtain ⟨init, hinit⟩ := List.getLast?_eq_some_iff.mp
      (List.getLast?_eq_some_getLast hname.ne_nil)
    have := Code.trailing_run (l := init) (r := [])
      (hblack _ (List.getLast_mem hname.ne_nil)) (by simp)
    rwa [← hinit] at this
  have hpos := List.length_pos_iff.mpr hname.ne_nil
  have htrim : code.trimmed r.start r.stop = ⟨r.start + 1, r.start + 1 + name.toList.length⟩ := by
    rw [Code.trimmed, hwindow, hleading]
    simp [htrailing]
  have hshows : code.Shows (r.start + 1) name.toList := hr.shows.append_right (l := [' '])
  have hle := hshows.length_le hname.ne_nil
  have hread := hcode.read hshows (by omega)
  refine ⟨{ name := ⟨r.start + 1, r.start + 1 + name.toList.length⟩, initializer := none }, ?_, ?_⟩
  · rw [Code.furtherVariable?, hassign]
    simpa [htrim, Range.isEmpty, hshows.window_self, hname.ne_nil] using hname.ident
  · simp [VariableLayout.read, Source.name, hread, Source.optional, bind, Except.bind, pure,
      Except.pure]

namespace Field.Plain

variable {f : Field} (h : f.Plain)
include h

/-- A written field: its modifiers, its type with its first name, and further names. -/
theorem exists_names : ∃ (name : String) (names : List String), PlainName name ∧
    (∀ n ∈ names, PlainName n) ∧
    f.declarators = { name } :: names.map fun n => { name := n } := by
  cases hdeclarators : f.declarators with
  | nil => exact absurd hdeclarators h.some
  | cons v vs =>
    have hall : ∀ w ∈ v :: vs, PlainName w.name ∧ w.initializer = none := by
      rw [← hdeclarators]
      exact h.declarators
    have hbare : ∀ w ∈ v :: vs, w = { name := w.name } := by
      rintro ⟨name, initializer⟩ hw
      have hnone : initializer = none := (hall _ hw).2
      rw [hnone]
    refine ⟨v.name, vs.map FieldVariable.name, (hall v List.mem_cons_self).1, ?_, ?_⟩
    · intro n hn
      obtain ⟨w, hw, rfl⟩ := List.mem_map.mp hn
      exact (hall w (List.mem_cons_of_mem _ hw)).1
    · rw [List.map_map, ← hbare v List.mem_cons_self]
      congr 1
      exact ((List.map_congr_left fun w hw =>
        (hbare w (List.mem_cons_of_mem _ hw)).symm).trans (List.map_id' vs)).symm

end Field.Plain

/-- A field declaration in front of its `;`. -/
def renderField (modifiers : List String) (type : TypeRef) (name : String) (names : List String) :
    Code :=
  (renderModifiers modifiers).toList ++ ((type.render.toList ++ ' ' :: name.toList) ++
    (names.map fun n => ' ' :: n.toList).flatMap (',' :: ·))

section

variable {modifiers : List String} (hms : ∀ m ∈ modifiers, m ∈ memberModifiers) {type : TypeRef}
  (htype : type.Plain) {name : String} (hname : PlainName name) {names : List String}
  (hnames : ∀ n ∈ names, PlainName n)
include hms htype hname hnames

theorem header_renderField : Segment.Header (renderField modifiers type name names) := by
  have hknown := Code.known_memberModifiers
  have hfirst : Code.Whole (type.render.toList ++ ' ' :: name.toList) :=
    htype.wellFormed.typeText.whole.append (Code.whole_of_ident hname.ident).space (.inl (by simp))
  have hothers : ∀ l ∈ names.map fun n => ' ' :: n.toList, Code.Whole l ∧ Code.Undeclared l := by
    intro l hl
    obtain ⟨n, hn, rfl⟩ := List.mem_map.mp hl
    exact ⟨(Code.whole_of_ident (hnames n hn).ident).space,
      Code.undeclared_nil.split (by decide) (hnames n hn).undeclared⟩
  refine ⟨?_, ?_, ?_⟩
  · rw [renderField, List.append_assoc]
    exact hknown.head hms (htype.head _)
  · rw [renderField, Code.stackAfter_append, Code.stackAfter_of_isInert (hknown.isInert hms),
      Option.bind_some, Code.stackAfter_append, hfirst.closed, Option.bind_some]
    exact Code.stackAfter_commas (fun l hl => (hothers l hl).1) []
  · refine hknown.undeclared hms (by decide) (Code.undeclared_commas ?_ ?_)
    · exact fun l hl => (hothers l hl).2
    · exact htype.undeclared.split (by decide) hname.undeclared

theorem not_mem_renderField : '(' ∉ renderField modifiers type name names := by
  have hident : ∀ n : String, PlainName n → '(' ∉ n.toList := fun n hn hmem =>
    absurd (hn.ident _ hmem) (by decide)
  intro hmem
  simp only [renderField, List.mem_append, List.mem_cons, List.mem_flatMap, List.mem_map] at hmem
  rcases hmem with hmem | (hmem | hmem | hmem) | ⟨l, ⟨n, hn, rfl⟩, hmem⟩
  · exact absurd (Code.known_memberModifiers.isInert hms _ hmem) (by decide)
  · exact htype.not_mem_paren hmem
  · exact absurd hmem (by decide)
  · exact hident name hname hmem
  · rcases hmem with hmem | hmem
    · exact absurd hmem (by decide)
    · exact hident n (hnames n hn) ((List.mem_cons.mp hmem).resolve_left (by decide))

/-- The layout of a written field is found and read. -/
theorem field?_read {x : Code} (hprinted : Printed x)
    (hx : x = renderField modifiers type name names ++ [';']) :
    ∃ layout, x.field? 0 x.length = some layout ∧ layout.read ⟨x, x⟩ = .ok
      { modifiers, type, declarators := { name } :: names.map fun n => { name := n } } := by
  have hstop : x.withoutSemicolon x.length = (renderField modifiers type name names).length := by
    have hlast : x[x.length - 1]? = some ';' := by
      rw [← List.getLast?_eq_getElem?, hx]
      simp
    rw [Code.withoutSemicolon, hlast, if_pos (by simp), hx]
    simp
  have hmods : x.modifiers memberModifiers 0 (renderField modifiers type name names).length =
      (modifiers, (renderModifiers modifiers).toList.length) := by
    have hwindow : x.window 0 (renderField modifiers type name names).length =
        renderField modifiers type name names := by
      rw [hx]
      simp [Code.window]
    have := Code.known_memberModifiers.modifiersFrom hms (htype.modifiersFrom (by decide)
      (name.toList ++ (names.map fun n => ' ' :: n.toList).flatMap (',' :: ·))) 0 0
    rw [Code.modifiers, hwindow, renderField]
    simpa using this
  have hshows : x.Shows (renderModifiers modifiers).toList.length
      ((type.render.toList ++ ' ' :: name.toList) ++
        (names.map fun n => ' ' :: n.toList).flatMap (',' :: ·)) := by
    rw [hx, renderField]
    exact Code.shows_append _ _ _
  have hend : (renderField modifiers type name names).length =
      (renderModifiers modifiers).toList.length + ((type.render.toList ++ ' ' :: name.toList) ++
        (names.map fun n => ' ' :: n.toList).flatMap (',' :: ·)).length := by
    rw [renderField, List.length_append]
  have hwhole : Code.Whole (type.render.toList ++ ' ' :: name.toList) :=
    htype.wellFormed.typeText.whole.append (Code.whole_of_ident hname.ident).space
      (.inl (by simp))
  have hwholes : ∀ l ∈ names.map fun n => ' ' :: n.toList, Code.Whole l := by
    intro l hl
    obtain ⟨n, hn, rfl⟩ := List.mem_map.mp hl
    exact (Code.whole_of_ident (hnames n hn).ident).space
  generalize (renderModifiers modifiers).toList = mods at hmods hshows hend
  have hranges : x.commaRanges mods.length (renderField modifiers type name names).length =
      Code.spread mods.length ((type.render.toList ++ ' ' :: name.toList) ::
        names.map fun n => ' ' :: n.toList) := by
    rw [Code.commaRanges, hend, hshows.window_self, Code.commaPieces_whole hwhole hwholes]
  -- The first piece holds the type, the others a name each.
  have hstands := Code.stands_spread hshows
  cases hstands with
  | cons hfirst hothers =>
    obtain ⟨hassign, t, n, htypeName, htype, hname⟩ :=
      typeAndName_read hprinted htype hname hfirst.shows
    rw [List.forall₂_map_right_iff] at hothers
    have hvariables := forall₂_imp_of_mem hothers fun r n hn hr =>
      furtherVariable_read hprinted (hnames n hn) hr
    obtain ⟨others, hlayouts, hreads⟩ :=
      exists_mapM_read (List.forall₂_map_right_iff.mpr hvariables)
    refine ⟨{ modifiers, type := t, declarators := { name := n, initializer := none } :: others },
      ?_, ?_⟩
    · simp only [Code.field?, hstop, hmods, hranges, Code.spread, hassign, Option.getD_none,
        htypeName, hlayouts]
      rfl
    · have hvariables : ({ name := n, initializer := none } :: others : List VariableLayout).mapM
          (VariableLayout.read ⟨x, x⟩) = .ok ({ name } :: names.map fun n => { name := n }) := by
        refine mapM_eq_ok_iff.mpr (.cons ?_ (mapM_eq_ok_iff.mp hreads))
        simp [VariableLayout.read, hname, Source.optional, bind, Except.bind, pure, Except.pure]
      simp [FieldLayout.read, htype, hvariables, bind, Except.bind, pure, Except.pure]

/-- A written field is found and read. -/
theorem field_read {x : Code} (hprinted : Printed x)
    (hx : x = renderField modifiers type name names ++ [';']) (className : Code) :
    (x.memberLayout className ⟨0, x.length⟩).read ⟨x, x⟩ = .ok (.field
      { modifiers, type, declarators := { name } :: names.map fun n => { name := n } }) := by
  have hheader := header_renderField hms htype hname hnames
  have hpass := Code.passAfter_closed hheader.closed
    (not_mem_renderField hms htype hname hnames)
  have hhead : ∃ c, x.head? = some c ∧ isIdentCell c = true := by
    obtain ⟨c, hc, hident⟩ := hheader.head
    exact ⟨c, by rw [hx, List.head?_append, hc]; rfl, hident⟩
  obtain ⟨layout, hlayout, hread⟩ := field?_read hms htype hname hnames hprinted hx
  have hundeclared := hheader.undeclared
  generalize renderField modifiers type name names = header at hx hpass hundeclared
  have hdecider : x.deciderFrom 0 x.length 0 0 0 (x.window 0 x.length) = .at header.length := by
    rw [Code.window_all, hx, Code.deciderFrom_pass hpass, Nat.zero_add]
    rfl
  have hwindow : x.window 0 header.length = header := by
    rw [hx]
    simp [Code.window]
  have hcell : x[header.length]? = some ';' := by rw [hx]; simp
  simp only [Code.memberLayout, Code.skipAttributes_ident hhead, hdecider, hwindow,
    hundeclared.any_eq_false, hcell, hlayout]
  rw [if_neg (by simp), if_neg (by decide), if_neg (by simp)]
  simp [MemberLayout.read_eq, hread, bind, Except.bind, pure, Except.pure]

end

/-! Members. -/

section

variable {style : Style} (hstyle : style.BlanksOnly) {name : String} (hname : PlainName name)
  {ps : List Parameter} (hps : ∀ p ∈ ps, p.Plain) {body : Body} (hbody : body.Plain) {u : Code}
include hstyle hname hps hbody

/-- A written callable is a header with a `;` or a block. -/
theorem memberText_callable (hclosed : Code.stackAfter [] u = some [])
    (hundeclared : Code.Undeclared (u ++ name.toList))
    (hhead : ∃ c, (u ++ name.toList).head? = some c ∧ isIdentCell c = true) :
    Segment.MemberText (u ++ renderCallable style name ps body) := by
  have hheader : Segment.Header ((u ++ name.toList) ++
      '(' :: ((renderParameters ps).toList ++ [')'])) := by
    refine ⟨?_, ?_, ?_⟩
    · obtain ⟨c, hc, hident⟩ := hhead
      exact ⟨c, by rw [List.head?_append, hc]; rfl, hident⟩
    · rw [Code.stackAfter_append, Code.stackAfter_append, hclosed, Option.bind_some,
        (Code.whole_of_ident hname.ident).closed, Option.bind_some, Code.stackAfter_cons rfl,
        Code.stackAfter_append]
      have hparams := Code.stackAfter_weaken (stackAfter_renderParameters hps) [')']
      rw [List.nil_append] at hparams
      rw [hparams]
      rfl
    · exact hundeclared.split (by decide)
        ((undeclared_renderParameters hps).split (by decide) Code.undeclared_nil)
  rcases hbody.shape hstyle with ⟨rfl, hrender⟩ | ⟨ss, b, i, rfl, -, hrender, hb, -, hinner⟩
  · have hsplit : u ++ renderCallable style name ps .absent =
        (u ++ name.toList) ++ '(' :: ((renderParameters ps).toList ++ [')']) ++ [';'] := by
      simp [renderCallable, hrender]
    rw [hsplit]
    exact .declared hheader
  · have hsplit : u ++ renderCallable style name ps (.block ss) =
        (u ++ name.toList) ++ '(' :: ((renderParameters ps).toList ++ [')']) ++ b ++
          '{' :: (i ++ ['}']) := by
      simp [renderCallable, hrender]
    rw [hsplit]
    exact .block hheader hb hinner

theorem printed_renderCallable : Printed (renderCallable style name ps body) := by
  refine hname.printed.append (Printed.cons (Printed.append (printed_renderParameters hps) ?_) ?_)
  · exact (hbody.printed hstyle).cons (by decide)
  · decide

end

/-- A plain member as it is written: the text after its indentation is one segment of the class
body, and the member is read back from it. -/
theorem Member.Plain.written {style : Style} (hstyle : style.BlanksOnly) {className : String}
    (hclass : PlainName className) {m : Member} (h : m.Plain className) :
    ∃ x : Code, (m.render style).toList = style.indent.toList ++ x ∧ Segment.MemberText x ∧
      Printed x ∧ (x.memberLayout className.toList ⟨0, x.length⟩).read ⟨x, x⟩ = .ok m := by
  have hknown := Code.known_memberModifiers
  have hprinted : ∀ {ms : List String}, (∀ m ∈ ms, m ∈ memberModifiers) →
      Printed (renderModifiers ms).toList := printed_renderModifiers (by decide)
  cases h with
  | @field f h =>
    obtain ⟨name, names, hname, hnames, hdeclarators⟩ := h.exists_names
    have hheader := header_renderField h.modifiers h.type hname hnames
    have hx : Printed (renderField f.modifiers f.type name names ++ [';']) := by
      refine Printed.append ((hprinted h.modifiers).append (Printed.append ?_ ?_)) ?_
      · exact h.type.printed.append (hname.printed.cons (by decide))
      · refine printed_commas fun l hl => ?_
        obtain ⟨n, hn, rfl⟩ := List.mem_map.mp hl
        exact (hnames n hn).printed.cons (by decide)
      · simp [Printed, isPrinted, isQuiet]
    refine ⟨renderField f.modifiers f.type name names ++ [';'], ?_, .declared hheader, hx, ?_⟩
    · have hrender : f.declarators.map FieldVariable.render = name :: names := by
        rw [hdeclarators]
        simp [FieldVariable.render, Function.comp_def]
      simp [Member.render, Field.render, renderField, hrender, joinWith_comma,
        String.toList_append]
    · rw [field_read h.modifiers h.type hname hnames hx rfl, ← hdeclarators]
  | @constructor c h =>
    have hname : PlainName c.name := h.name ▸ hclass
    have hx := (hprinted h.modifiers).append
      (printed_renderCallable hstyle hname h.parameters h.body)
    refine ⟨(renderModifiers c.modifiers).toList ++
      renderCallable style c.name c.parameters c.body, ?_, ?_, hx,
      h.read hstyle hx hclass rfl⟩
    · simp [Member.render, Constructor.render, h.initializer, renderCallable,
        String.toList_append]
    · have hhead := hknown.head h.modifiers (hname.head_ident [])
      rw [List.append_nil] at hhead
      exact memberText_callable hstyle hname h.parameters h.body
        (Code.stackAfter_of_isInert (hknown.isInert h.modifiers) [])
        (hknown.undeclared h.modifiers (by decide) hname.undeclared) hhead
  | @method m h =>
    have hlead : m.renderLead.toList =
        (renderModifiers m.modifiers).toList ++ (m.returnType.render.toList ++ [' ']) := by
      simp [Method.renderLead, String.toList_append]
    have hx : Printed (m.renderLead.toList ++
        renderCallable style m.name m.parameters m.body) := by
      rw [hlead]
      refine Printed.append ((hprinted h.modifiers).append (h.returnType.printed.append ?_))
        (printed_renderCallable hstyle h.name h.parameters h.body)
      simp [Printed, isPrinted, isQuiet]
    refine ⟨m.renderLead.toList ++ renderCallable style m.name m.parameters m.body, ?_, ?_, hx,
      h.read hstyle hx className rfl⟩
    · simp [Member.render, Method.render, h.typeParams, h.constraints, renderCallable,
        String.toList_append]
    · refine memberText_callable hstyle h.name h.parameters h.body ?_ ?_ ?_
      · rw [hlead, Code.stackAfter_append, Code.stackAfter_of_isInert (hknown.isInert h.modifiers),
          Option.bind_some, Code.stackAfter_append,
          h.returnType.wellFormed.typeText.whole.closed]
        rfl
      · rw [hlead, List.append_assoc, List.append_assoc, List.singleton_append]
        exact hknown.undeclared h.modifiers (by decide)
          (h.returnType.undeclared.split (by decide) h.name.undeclared)
      · rw [hlead, List.append_assoc, List.append_assoc]
        exact hknown.head h.modifiers (h.returnType.head _)

end ClassRefactor
