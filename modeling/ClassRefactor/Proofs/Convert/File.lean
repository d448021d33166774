import ClassRefactor.Proofs.Action.Convert
import ClassRefactor.Proofs.Exchange.File

/-!
# A converted method is read back
-/

namespace ClassRefactor

theorem Member.eq_of_method? {member : Member} {m : Method} (h : member.method? = some m) :
    member = .method m := by
  cases member with
  | method m' => rw [Option.some.inj h]
  | field f => cases h
  | constructor k => cases h
  | other o => cases h

namespace ParsedClass

/-- A converted method whose return type is well-formed is read back as what it was converted to.
The file declares the classes that it declared, and all other members of the class are read as
before. -/
theorem convertMethod_read_back (text : Text) :
    ∃ file, SourceFile.parse text = .ok file ∧ ∀ (i : Nat) (c : ParsedClass),
      file.classes[i]? = some c → ∀ (k : Nat) (m : Method),
      c.node.members[k]? = some (.method m) → m.returnType.WellFormed →
      ∀ target, m.mode ≠ target → ∀ name, ∃ w t' file' c',
        c.convertMethod false name text k target = .ok w ∧ text.applyEdits w.edits = .ok t' ∧
        SourceFile.parse t' = .ok file' ∧ file'.classes.length = file.classes.length ∧
        file'.classes[i]? = some c' ∧
        c'.node = { c.node with
          members := c.node.members.set k (.method (m.convert false target)) } := by
  obtain ⟨file, hfile⟩ := SourceFile.exists_parse text
  refine ⟨file, hfile, fun i c hc k m hm hwf target hmode name => ?_⟩
  obtain ⟨layout, callable, a, b, d, hlayout, hcallable, htext, hlead, hmodifiers, hexchanged⟩ :=
    SourceFile.exists_exchanged hfile hc hm hwf
  obtain ⟨modifiers, returnType, hconvert⟩ := m.exists_convert_eq target
  have hms := Method.modifiers_convert hmodifiers target
  have ht := Method.wellFormed_convert hwf target
  rw [hconvert] at hms ht
  obtain ⟨file', c', hfile', hlength, hc', hnode⟩ := hexchanged modifiers hms returnType ht
  have hle : callable.lead.start ≤ callable.lead.stop := by rw [hlead]; exact Nat.le_add_right ..
  have hconverted : c.convertMethod false name text k target =
      .ok ⟨[⟨name, callable.lead, (m.convert false target).renderLead⟩]⟩ :=
    convertMethod_eq hm hmode hlayout hcallable hle
  refine ⟨_, a ++ leadText modifiers returnType ++ d, file', c', hconverted, ?_, hfile', hlength,
    hc', by rw [hconvert, hnode]⟩
  rw [Text.applyEdits_singleton, htext, TextEdit.applyTo_append _ (congrArg Range.start hlead)
    (congrArg Range.stop hlead), Method.toList_renderLead, hconvert]

/-- A class with an asynchronous method and a field. -/
def taskMethod : Text :=
  "class C \x7b [X] public async Task<int> F(int a) \x7b return a; \x7d int _g; \x7d".toList

theorem convertMethod_read_back_taskMethod :
    ∃ (file file' : SourceFile) (c c' : ParsedClass) (m : Method) (w : WorkspaceEdit) (t' : Text),
      SourceFile.parse taskMethod = .ok file ∧ file.classes[0]? = some c ∧
      c.node.members[0]? = some (.method m) ∧ m.returnType.WellFormed ∧ m.mode ≠ .sync ∧
      c.convertMethod false "C.cs" taskMethod 0 .sync = .ok w ∧
      taskMethod.applyEdits w.edits = .ok t' ∧ SourceFile.parse t' = .ok file' ∧
      file'.classes.length = file.classes.length ∧ file'.classes[0]? = some c' ∧
      c'.node = { c.node with members := c.node.members.set 0 (.method (m.convert false .sync)) } := by
  have hrun : (SourceFile.parse taskMethod).toOption.bind (fun f =>
      f.classes[0]?.bind fun c => (c.node.members[0]?.bind Member.method?).map fun m =>
        (m.mode, m.returnType)) =
      some (.async, { name := "Task", args := [{ name := "int" }] }) := by
    decide +kernel
  simp only [Option.bind_eq_some_iff, Option.map_eq_some_iff, toOption_eq_some_iff,
    Prod.mk.injEq] at hrun
  obtain ⟨file, hfile, c, hc, m, ⟨member, hmember, hm⟩, hmode, htype⟩ := hrun
  have hwf : m.returnType.WellFormed := by
    rw [htype]
    exact (TypeRef.Plain.mk (by decide) (by simpa using .mk (by decide) (by simp))).wellFormed
  have hasync : m.mode ≠ .sync := by rw [hmode]; decide
  obtain rfl := Member.eq_of_method? hm
  obtain ⟨file₀, hfile₀, hread⟩ := convertMethod_read_back taskMethod
  obtain rfl := Except.ok.inj (hfile.symm.trans hfile₀)
  obtain ⟨w, t', file', c', hw, ht', hfile', hlength, hc', hnode⟩ :=
    hread 0 c hc 0 m hmember hwf .sync hasync "C.cs"
  exact ⟨file, file', c, c', m, w, t', hfile, hc, hmember, hwf, hasync, hw, ht', hfile', hlength,
    hc', hnode⟩

/-- A return type with a line comment after it. -/
def commentedResult : Text := "class C \x7b int // x\n Foo() \x7b \x7d \x7d".toList

/-- The comment becomes part of the return type, and written on one line with the name of the method
it hides what follows: no class is read from the converted text. -/
theorem convert_commentedResult :
    ∃ (file file' : SourceFile) (c : ParsedClass) (m : Method) (w : WorkspaceEdit) (t' : Text),
      SourceFile.parse commentedResult = .ok file ∧ file.classes[0]? = some c ∧
      c.node.members[0]? = some (.method m) ∧ m.mode = .sync ∧
      c.convertMethod false "C.cs" commentedResult 0 .async = .ok w ∧
      commentedResult.applyEdits w.edits = .ok t' ∧
      t' = "class C \x7b async Task<int//x> Foo() \x7b \x7d \x7d".toList ∧
      SourceFile.parse t' = .ok file' ∧ file'.classes.length = 0 := by
  have hrun : (SourceFile.parse commentedResult).toOption.bind (fun f =>
      f.classes[0]?.bind fun c => (c.node.members[0]?.bind Member.method?).bind fun m =>
        (c.convertMethod false "C.cs" commentedResult 0 .async).toOption.bind fun w =>
          (commentedResult.applyEdits w.edits).toOption.bind fun t' =>
            (SourceFile.parse t').toOption.map fun f' => (m.mode, t', f'.classes.length)) =
      some (.sync, "class C \x7b async Task<int//x> Foo() \x7b \x7d \x7d".toList, 0) := by
    decide +kernel
  simp only [Option.bind_eq_some_iff, Option.map_eq_some_iff, toOption_eq_some_iff,
    Prod.mk.injEq] at hrun
  obtain ⟨file, hfile, c, hc, m, ⟨member, hmember, hm⟩, w, hw, t', ht', file', hfile', hmode, htext,
    hlength⟩ := hrun
  obtain rfl := Member.eq_of_method? hm
  exact ⟨file, file', c, m, w, t', hfile, hc, hmember, hmode, hw, ht', htext, hfile', hlength⟩

end ParsedClass

end ClassRefactor
