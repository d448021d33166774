import ClassRefactor.Proofs.Action.Addition
import ClassRefactor.Proofs.Action.Convert

/-!
# Refactorings of one class are safe

A refactoring of one class of a file never fails for its edits. They lie in the class, in order and
apart, so they apply, and the text around the class stays as it is.
-/

namespace ClassRefactor.ParsedClass

variable {text : Text} {file : SourceFile} {c : ParsedClass}

theorem range_spec (hfile : SourceFile.parse text = .ok file) (hc : c ∈ file.classes) :
    text.isBoundary c.layout.range.start = true ∧ text.isBoundary c.layout.range.stop = true ∧
      c.layout.range.start ≤ c.layout.range.stop := by
  obtain ⟨hle, hstart, hstop⟩ := (SourceFile.readable_of_mem_classes hfile hc).range
  exact ⟨Text.isBoundary_of_seam hstart, Text.isBoundary_of_seam hstop, hle⟩

/-- The edits that resolve a class: one or two, and they fit the class. -/
theorem exists_resolve (hfile : SourceFile.parse text = .ok file) (hc : c ∈ file.classes)
    (name : String) (happlicable : c.node.isApplicable false = true) :
    ∃ w, c.resolve false name text = .ok w ∧ (w.edits.length = 1 ∨ w.edits.length = 2) ∧
      (∀ e ∈ w.edits, e.file = name) ∧ TextEdit.Fit text c.layout.range w.edits := by
  obtain ⟨plan, hplan⟩ := ClassNode.exists_plan_of_isApplicable happlicable
  obtain ⟨rs, hresolve, hapart, hlength, hadditions⟩ := exists_additions hfile hc name hplan
  have hbounds : ∀ e ∈ rs.map (Replacement.toEdit name),
      e.file = name ∧ (text.isBoundary e.range.start = true ∧ text.isBoundary e.range.stop = true) ∧
        c.layout.range.start ≤ e.range.start ∧ e.range.start ≤ e.range.stop ∧
        e.range.stop ≤ c.layout.range.stop := by
    intro e he
    obtain ⟨r, hr, rfl⟩ := List.mem_map.mp he
    exact ⟨rfl, (hadditions r hr).bounds hfile hc⟩
  refine ⟨_, hresolve, by simpa using hlength, fun e he => (hbounds e he).1,
    fun e he => (hbounds e he).2.1, fun e he => (hbounds e he).2.2, ?_⟩
  exact hapart.apart.imp fun hab => hab.2.1

/-- The edit that converts a method: it replaces the lead of the method. -/
theorem exists_convertMethod (hfile : SourceFile.parse text = .ok file) (hc : c ∈ file.classes)
    (name : String) {index : Nat} {m : Method} {target : MethodMode}
    (hm : c.node.members[index]? = some (.method m)) (hmode : m.mode ≠ target) :
    ∃ layout callable e, c.layout.members[index]? = some layout ∧
      layout.shape.callable? = some callable ∧
      c.convertMethod false name text index target = .ok ⟨[e]⟩ ∧ e.file = name ∧
      e.range = callable.lead ∧ TextEdit.Fit text c.layout.range [e] ∧
      TextEdit.Fit text callable.lead [e] := by
  obtain ⟨layout, callable, hlayout, hcallable, hstart, hstop, hlo, hordered, hhi⟩ :=
    exists_layout_of_method hfile hc hm
  have hfit : TextEdit.Fit text callable.lead
      [⟨name, callable.lead, (m.convert false target).renderLead⟩] :=
    ⟨by simp [hstart, hstop], by simp [hordered], by simp⟩
  exact ⟨layout, callable, _, hlayout, hcallable,
    convertMethod_eq hm hmode hlayout hcallable hordered, rfl, rfl, hfit.mono hlo hhi, hfit⟩

theorem resolve_eq_error (name : String) (text : Text) {cancelled : Bool}
    (h : c.node.isApplicable cancelled = false) :
    c.resolve cancelled name text = .error .cancelled ∨
      c.resolve cancelled name text = .error .notApplicable := by
  unfold resolve
  by_cases hcancelled : cancelled = true
  · exact .inl (if_pos hcancelled)
  · rw [if_neg hcancelled, if_pos (by rw [h]; rfl)]
    exact .inr rfl

/-- No refactoring of a class fails for its edits. -/
theorem ne_error_edit (hfile : SourceFile.parse text = .ok file) (hc : c ∈ file.classes)
    (name : String) (cancelled : Bool) (e : EditError) :
    c.resolve cancelled name text ≠ .error (.edit e) ∧
      ∀ index target, c.convertMethod cancelled name text index target ≠ .error (.edit e) := by
  constructor
  · intro herror
    by_cases happlicable : c.node.isApplicable cancelled = true
    · have hnot : cancelled = false := by
        cases cancelled with
        | false => rfl
        | true => simp [ClassNode.isApplicable] at happlicable
      subst hnot
      obtain ⟨w, hw, -⟩ := exists_resolve hfile hc name happlicable
      rw [hw] at herror
      cases herror
    · rcases resolve_eq_error name text (by simpa using happlicable) with h | h <;>
        rw [h] at herror <;> cases herror
  · intro index target herror
    by_cases hno : cancelled = true ∨
        ∀ m, c.node.members[index]? = some (.method m) → m.mode = target
    · rcases convertMethod_eq_error name text hno with h | h | h <;>
        rw [h] at herror <;> cases herror
    · push Not at hno
      obtain ⟨hcancelled, m, hm, hmode⟩ := hno
      obtain ⟨-, -, edit, -, -, hw, -⟩ := exists_convertMethod hfile hc name hm hmode
      rw [Bool.eq_false_iff.mpr hcancelled, hw] at herror
      cases herror

/-- The refactorings of one class never produce a bad edit. An applicable class is resolved by one or
two edits, and a method is converted by one edit of its lead. These edits name the file, fit the
class, and apply; resolving keeps the text outside the class, and converting keeps the text outside
the lead. Whatever is asked of a class, it never fails for its edits. -/
theorem refactorings_safe (text : Text) :
    ∃ file, SourceFile.parse text = .ok file ∧ ∀ c ∈ file.classes, ∀ name : String,
      (c.node.isApplicable false = true →
        ∃ w t', c.resolve false name text = .ok w ∧ (w.edits.length = 1 ∨ w.edits.length = 2) ∧
          (∀ e ∈ w.edits, e.file = name) ∧ TextEdit.Fit text c.layout.range w.edits ∧
          text.applyEdits w.edits = .ok t' ∧ text.SameOutside c.layout.range t') ∧
      (∀ index m target, c.node.members[index]? = some (.method m) → m.mode ≠ target →
        ∃ layout callable e t', c.layout.members[index]? = some layout ∧
          layout.shape.callable? = some callable ∧
          c.convertMethod false name text index target = .ok ⟨[e]⟩ ∧ e.file = name ∧
          e.range = callable.lead ∧ TextEdit.Fit text c.layout.range [e] ∧
          text.applyEdits [e] = .ok t' ∧ text.SameOutside callable.lead t') ∧
      ∀ cancelled e, c.resolve cancelled name text ≠ .error (.edit e) ∧
        ∀ index target, c.convertMethod cancelled name text index target ≠ .error (.edit e) := by
  obtain ⟨file, hfile⟩ := SourceFile.exists_parse text
  refine ⟨file, hfile, fun c hc name => ⟨fun happlicable => ?_, ?_, ne_error_edit hfile hc name⟩⟩
  · obtain ⟨w, hw, hlength, hname, hfit⟩ := exists_resolve hfile hc name happlicable
    obtain ⟨hstart, hstop, hle⟩ := range_spec hfile hc
    obtain ⟨t', happly, hsame⟩ := hfit.exists_applyEdits hstart hstop hle
    exact ⟨w, t', hw, hlength, hname, hfit, happly, hsame⟩
  · intro index m target hm hmode
    obtain ⟨layout, callable, e, hlayout, hcallable, hw, hname, hrange, hclass, hlead⟩ :=
      exists_convertMethod hfile hc name hm hmode
    have hbounds := hlead.boundary e List.mem_cons_self
    have hordered := (hlead.within e List.mem_cons_self).2.1
    rw [hrange] at hbounds hordered
    obtain ⟨t', happly, hsame⟩ := hlead.exists_applyEdits hbounds.1 hbounds.2 hordered
    exact ⟨layout, callable, e, t', hlayout, hcallable, hw, hname, hrange, hclass, happly, hsame⟩

/-- A class with a dependency and a method that is not asynchronous. -/
def mixedClass : Text := "class C \x7b readonly A _a; int F() \x7b return 1; \x7d \x7d".toList

theorem refactorings_safe_mixedClass :
    ∃ (file : SourceFile) (c : ParsedClass) (w : WorkspaceEdit) (e : TextEdit) (t' u' : Text),
      SourceFile.parse mixedClass = .ok file ∧ c ∈ file.classes ∧
      c.resolve false "C.cs" mixedClass = .ok w ∧ mixedClass.applyEdits w.edits = .ok t' ∧
      mixedClass.SameOutside ⟨0, 48⟩ t' ∧
      c.convertMethod false "C.cs" mixedClass 1 .async = .ok ⟨[e]⟩ ∧
      mixedClass.applyEdits [e] = .ok u' ∧ mixedClass.SameOutside ⟨25, 29⟩ u' := by
  obtain ⟨file, hfile, hsafe⟩ := refactorings_safe mixedClass
  have hrun : (SourceFile.parse mixedClass).toOption.map (fun f => f.classes.map fun c =>
      (c.node.isApplicable false && c.layout.range == ⟨0, 48⟩,
        c.node.members.map (fun m => m.method?.map Method.mode),
        c.layout.members.map fun l => l.shape.callable?.map CallableLayout.lead)) =
      some [(true, [none, some .sync], [none, some ⟨25, 29⟩])] := by
    decide +kernel
  rw [hfile] at hrun
  simp only [Except.toOption, Option.map_some, Option.some.injEq, List.map_eq_singleton_iff,
    Prod.mk.injEq, Bool.and_eq_true, beq_iff_eq] at hrun
  obtain ⟨c, hc, ⟨happlicable, hrange⟩, hmodes, hleads⟩ := hrun
  have hmem : c ∈ file.classes := by simp [hc]
  obtain ⟨hresolve, hconvert, -⟩ := hsafe c hmem "C.cs"
  obtain ⟨w, t', hw, -, -, -, happly, hsame⟩ := hresolve happlicable
  have hmethod := congrArg (·[1]?) hmodes
  have hlead := congrArg (·[1]?) hleads
  simp only [List.getElem?_map, List.getElem?_cons_succ, List.getElem?_cons_zero,
    Option.map_eq_some_iff] at hmethod hlead
  obtain ⟨member, hmember, m, hm, hmode⟩ := hmethod
  cases member with
  | method k =>
    obtain rfl := Option.some.inj hm
    obtain ⟨layout, callable, e, u', hlayout, hcallable, hconverted, -, -, -, happly', hsame'⟩ :=
      hconvert 1 k .async hmember (by rw [hmode]; decide)
    obtain ⟨layout', hlayout', callable', hcallable', hrange'⟩ := hlead
    rw [hlayout] at hlayout'
    obtain rfl := Option.some.inj hlayout'
    rw [hcallable] at hcallable'
    obtain rfl := Option.some.inj hcallable'
    rw [hrange'] at hsame'
    rw [hrange] at hsame
    exact ⟨file, c, w, e, t', u', hfile, hmem, hw, happly, hsame, hconverted, happly', hsame'⟩
  | field f => cases hm
  | constructor k => cases hm
  | other o => cases hm

end ClassRefactor.ParsedClass
