import ClassRefactor.Action.Offer
import ClassRefactor.Proofs.Action.Safety

/-!
# What is offered can be done, and the other way round

The offer at a cursor looks at the tree alone, the refactoring also computes its edits. Since these
never fail, the two agree at every cursor.
-/

namespace ClassRefactor

theorem lastMax?_mem {α : Type} {key : α → Nat} {as : List α} {a : α}
    (h : lastMax? key as = some a) : a ∈ as := by
  induction as generalizing a with
  | nil => cases h
  | cons b rest ih =>
    unfold lastMax? at h
    split at h
    · rw [Option.some.inj h]
      exact List.mem_cons_self
    · rename_i d hd
      split at h
      · rw [← Option.some.inj h]
        exact List.mem_cons_of_mem _ (ih hd)
      · rw [Option.some.inj h]
        exact List.mem_cons_self

/-- The kind of action that converts methods to a mode. -/
def ActionKind.convertTo : MethodMode → ActionKind
  | .sync => .convertToSync
  | .async => .convertToAsync

/-- The mode of a method is changed by the action for the other mode. -/
theorem Action.toggle_eq_iff {m : Method} {target : MethodMode} {name : String} :
    Action.toggle m = ⟨.convertTo target, name⟩ ↔ m.mode ≠ target ∧ m.name = name := by
  unfold toggle
  cases hmode : m.mode <;> cases target <;> simp [ActionKind.convertTo]

namespace SourceFile

variable {text : Text} {file : SourceFile} {offset : Nat}

theorem mem_classes_of_classAt? {c : ParsedClass} (h : file.classAt? offset = some c) :
    c ∈ file.classes :=
  List.mem_of_mem_filter (lastMax?_mem h)

theorem mem_classes_of_methodAt? {c : ParsedClass} {index : Nat}
    (h : file.methodAt? offset = some (c, index)) : c ∈ file.classes := by
  obtain ⟨d, hd, hindex⟩ := List.mem_filterMap.mp (lastMax?_mem h)
  obtain ⟨i, -, heq⟩ := Option.map_eq_some_iff.mp hindex
  obtain rfl := congrArg Prod.fst heq
  exact hd

theorem classActions_eq (file : SourceFile) (offset : Nat) :
    file.classActions false offset =
      ((file.classAt? offset).filter fun c => c.node.isApplicable false).toList.map fun c =>
        ⟨.resolveDependencies, c.node.name⟩ := by
  unfold classActions
  cases file.classAt? offset with
  | none => rfl
  | some c => by_cases h : c.node.isApplicable false = true <;> simp [h, Option.filter]

/-- The method that a cursor is on, if there is one. -/
def cursorMethod? (file : SourceFile) (offset : Nat) : Option Method :=
  (file.methodAt? offset).bind fun p => p.1.node.members[p.2]?.bind Member.method?

theorem methodActions_eq (file : SourceFile) (offset : Nat) :
    file.methodActions offset = ((file.cursorMethod? offset).map Action.toggle).toList := by
  unfold methodActions cursorMethod?
  cases file.methodAt? offset <;> rfl

theorem cursorMethod?_eq_some_iff {m : Method} :
    file.cursorMethod? offset = some m ↔
      ∃ c index, file.methodAt? offset = some (c, index) ∧
        c.node.members[index]? = some (.method m) := by
  have hmethod : ∀ member : Member, member.method? = some m ↔ member = .method m := by
    intro member
    cases member <;> simp [Member.method?]
  simp [cursorMethod?, Option.bind_eq_some_iff, hmethod]

theorem mem_actionsAt_iff {a : Action} :
    a ∈ file.actionsAt false offset ↔
      (∃ c, file.classAt? offset = some c ∧ c.node.isApplicable false = true ∧
        a = ⟨.resolveDependencies, c.node.name⟩) ∨
      ∃ m, file.cursorMethod? offset = some m ∧ a = .toggle m := by
  simp only [actionsAt, Bool.false_eq_true, ↓reduceIte, List.mem_append, classActions_eq,
    methodActions_eq, List.mem_map, Option.mem_toList, Option.filter_eq_some_iff,
    Option.map_eq_some_iff]
  constructor
  · rintro (⟨c, ⟨hc, happlicable⟩, rfl⟩ | ⟨m, hm, rfl⟩)
    · exact .inl ⟨c, hc, happlicable, rfl⟩
    · exact .inr ⟨m, hm, rfl⟩
  · rintro (⟨c, hc, happlicable, rfl⟩ | ⟨m, hm, rfl⟩)
    · exact .inl ⟨c, ⟨hc, happlicable⟩, rfl⟩
    · exact .inr ⟨m, hm, rfl⟩

theorem mem_actionsAt_resolve_iff {target : String} :
    ⟨.resolveDependencies, target⟩ ∈ file.actionsAt false offset ↔
      ∃ c, file.classAt? offset = some c ∧ c.node.isApplicable false = true ∧
        c.node.name = target := by
  rw [mem_actionsAt_iff]
  constructor
  · rintro (⟨c, hc, happlicable, heq⟩ | ⟨m, -, heq⟩)
    · exact ⟨c, hc, happlicable, (congrArg Action.target heq).symm⟩
    · have hkind := congrArg Action.kind heq
      unfold Action.toggle at hkind
      split at hkind <;> cases hkind
  · rintro ⟨c, hc, happlicable, rfl⟩
    exact .inl ⟨c, hc, happlicable, rfl⟩

theorem mem_actionsAt_convert_iff {mode : MethodMode} {target : String} :
    ⟨.convertTo mode, target⟩ ∈ file.actionsAt false offset ↔
      ∃ m, file.cursorMethod? offset = some m ∧ m.mode ≠ mode ∧ m.name = target := by
  rw [mem_actionsAt_iff]
  constructor
  · rintro (⟨c, -, -, heq⟩ | ⟨m, hm, heq⟩)
    · have hkind := congrArg Action.kind heq
      cases mode <;> cases hkind
    · exact ⟨m, hm, Action.toggle_eq_iff.mp heq.symm⟩
  · rintro ⟨m, hm, hmode⟩
    exact .inr ⟨m, hm, (Action.toggle_eq_iff.mpr hmode).symm⟩

theorem resolveAt_eq_ok_iff {name : String} {w : WorkspaceEdit} :
    file.resolveAt false name text offset = .ok w ↔
      ∃ c, file.classAt? offset = some c ∧ c.node.isApplicable false = true ∧
        c.resolve false name text = .ok w := by
  unfold resolveAt
  cases hc : file.classAt? offset with
  | none => simp
  | some c =>
    by_cases happlicable : c.node.isApplicable false = true
    · simp [happlicable]
    · rcases ParsedClass.resolve_eq_error name text (by simpa using happlicable) with h | h
      · simp [happlicable, h]
      · simp [happlicable, h]

theorem convertAt_eq_ok_iff {name : String} {mode : MethodMode} {w : WorkspaceEdit} :
    file.convertAt false name text offset mode = .ok w ↔
      ∃ c index m, file.methodAt? offset = some (c, index) ∧
        c.node.members[index]? = some (.method m) ∧ m.mode ≠ mode ∧
        c.convertMethod false name text index mode = .ok w := by
  unfold convertAt
  cases hat : file.methodAt? offset with
  | none => simp
  | some p =>
    obtain ⟨c, index⟩ := p
    simp only
    constructor
    · intro hw
      by_cases hno : ∀ m, c.node.members[index]? = some (.method m) → m.mode = mode
      · rcases ParsedClass.convertMethod_eq_error name text (.inr hno) with h | h | h <;>
          rw [h] at hw <;> cases hw
      · push Not at hno
        obtain ⟨m, hm, hmode⟩ := hno
        exact ⟨c, index, m, rfl, hm, hmode, hw⟩
    · rintro ⟨c', index', m, heq, -, -, hw⟩
      obtain ⟨rfl, rfl⟩ := Prod.mk.inj (Option.some.inj heq)
      exact hw

theorem nodup_kinds_actionsAt (file : SourceFile) (offset : Nat) :
    ((file.actionsAt false offset).map Action.kind).Nodup := by
  simp only [actionsAt, Bool.false_eq_true, ↓reduceIte, classActions_eq, methodActions_eq]
  cases Option.filter (fun c => c.node.isApplicable false) (file.classAt? offset) with
  | none => cases file.cursorMethod? offset <;> simp
  | some c =>
    cases file.cursorMethod? offset with
    | none => simp
    | some m => cases hmode : m.mode <;> simp [Action.toggle, hmode]

theorem length_conversions_actionsAt (file : SourceFile) (offset : Nat) :
    ((file.actionsAt false offset).filter (·.kind != .resolveDependencies)).length ≤ 1 := by
  simp only [actionsAt, Bool.false_eq_true, ↓reduceIte, classActions_eq, methodActions_eq,
    List.filter_append, List.length_append]
  have hclass : ∀ o : Option ParsedClass,
      (List.filter (·.kind != .resolveDependencies)
        (o.toList.map fun c => (⟨.resolveDependencies, c.node.name⟩ : Action))) = [] := by
    intro o
    cases o <;> rfl
  have hmethod : ∀ o : Option Action, (o.toList.filter (·.kind != .resolveDependencies)).length ≤ 1 := by
    intro o
    refine Nat.le_trans (List.length_filter_le ..) ?_
    cases o <;> simp
  rw [hclass]
  simpa using hmethod _

/-- The offer at a cursor is sound and complete. A refactoring is on offer exactly when it succeeds
there; no kind is offered twice, and at most one conversion is. The offer names the class that the
edits of the resolution lie in, and the method whose lead the conversion replaces. -/
theorem actionsAt_sound_complete (text : Text) (offset : Nat) (name : String) :
    ∃ file, parse text = .ok file ∧
      ((∃ target, ⟨.resolveDependencies, target⟩ ∈ file.actionsAt false offset) ↔
        ∃ w, file.resolveAt false name text offset = .ok w) ∧
      (∀ mode, (∃ target, ⟨.convertTo mode, target⟩ ∈ file.actionsAt false offset) ↔
        ∃ w, file.convertAt false name text offset mode = .ok w) ∧
      ((file.actionsAt false offset).map Action.kind).Nodup ∧
      ((file.actionsAt false offset).filter (·.kind != .resolveDependencies)).length ≤ 1 ∧
      (∀ target w, ⟨.resolveDependencies, target⟩ ∈ file.actionsAt false offset →
        file.resolveAt false name text offset = .ok w →
        ∃ c, file.classAt? offset = some c ∧ c ∈ file.classes ∧ c.node.name = target ∧
          w.edits ≠ [] ∧ TextEdit.Fit text c.layout.range w.edits) ∧
      ∀ mode target w, ⟨.convertTo mode, target⟩ ∈ file.actionsAt false offset →
        file.convertAt false name text offset mode = .ok w →
        ∃ c index m layout callable e, file.methodAt? offset = some (c, index) ∧
          c ∈ file.classes ∧ c.node.members[index]? = some (.method m) ∧ m.name = target ∧
          c.layout.members[index]? = some layout ∧ layout.shape.callable? = some callable ∧
          w.edits = [e] ∧ e.range = callable.lead := by
  obtain ⟨file, hfile⟩ := exists_parse text
  refine ⟨file, hfile, ?_, fun mode => ?_, file.nodup_kinds_actionsAt offset,
    file.length_conversions_actionsAt offset, ?_, ?_⟩
  · simp only [mem_actionsAt_resolve_iff, resolveAt_eq_ok_iff]
    constructor
    · rintro ⟨-, c, hc, happlicable, -⟩
      obtain ⟨w, hw, -⟩ := ParsedClass.exists_resolve hfile (mem_classes_of_classAt? hc) name
        happlicable
      exact ⟨w, c, hc, happlicable, hw⟩
    · rintro ⟨-, c, hc, happlicable, -⟩
      exact ⟨c.node.name, c, hc, happlicable, rfl⟩
  · simp only [mem_actionsAt_convert_iff, convertAt_eq_ok_iff, cursorMethod?_eq_some_iff]
    constructor
    · rintro ⟨-, m, ⟨c, index, hat, hm⟩, hmode, -⟩
      obtain ⟨-, -, e, -, -, hw, -⟩ := ParsedClass.exists_convertMethod hfile
        (mem_classes_of_methodAt? hat) name hm hmode
      exact ⟨_, c, index, m, hat, hm, hmode, hw⟩
    · rintro ⟨-, c, index, m, hat, hm, hmode, -⟩
      exact ⟨m.name, m, ⟨c, index, hat, hm⟩, hmode, rfl⟩
  · intro target w hoffer hw
    obtain ⟨c, hc, happlicable, htarget⟩ := mem_actionsAt_resolve_iff.mp hoffer
    obtain ⟨c', hc', -, hresolve⟩ := resolveAt_eq_ok_iff.mp hw
    rw [hc] at hc'
    obtain rfl := Option.some.inj hc'
    have hmem := mem_classes_of_classAt? hc
    obtain ⟨w', hw', hlength, -, hfit⟩ := ParsedClass.exists_resolve hfile hmem name happlicable
    rw [hresolve] at hw'
    obtain rfl := Except.ok.inj hw'
    refine ⟨c, hc, hmem, htarget, fun hnil => ?_, hfit⟩
    rw [hnil] at hlength
    simp at hlength
  · intro mode target w hoffer hw
    obtain ⟨m, hat, hmode, htarget⟩ := mem_actionsAt_convert_iff.mp hoffer
    obtain ⟨c, index, hat, hm⟩ := cursorMethod?_eq_some_iff.mp hat
    obtain ⟨c', index', -, hat', -, -, hconvert⟩ := convertAt_eq_ok_iff.mp hw
    rw [hat] at hat'
    obtain ⟨rfl, rfl⟩ := Prod.mk.inj (Option.some.inj hat')
    have hmem := mem_classes_of_methodAt? hat
    obtain ⟨layout, callable, e, hlayout, hcallable, hedit, -, hrange, -⟩ :=
      ParsedClass.exists_convertMethod hfile hmem name hm hmode
    rw [hconvert] at hedit
    obtain rfl := Except.ok.inj hedit
    exact ⟨c, index, m, layout, callable, e, hat, hmem, hm, htarget, hlayout, hcallable, rfl,
      hrange⟩

end SourceFile

end ClassRefactor
