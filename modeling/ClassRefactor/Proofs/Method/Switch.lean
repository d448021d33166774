import ClassRefactor.Proofs.Action.Convert
import ClassRefactor.Proofs.Tree.Equality

/-!
# Switching a method to and fro

Wrapping a result and unwrapping it again gives the method back, so repeated conversions neither peel
nor stack layers of the deferred type. Whatever modes are asked for one after another, a method takes
on four forms at most, and nothing but its modifiers and its return type ever changes.

An asynchronous method that is made synchronous and asynchronous again need not be what it was: the
way back writes `async` after all other modifiers and the deferred type by its short name. So a
method comes back exactly if it is written that way already.
-/

namespace ClassRefactor

theorem TypeRef.eq_void_of_isVoid {t : TypeRef} (h : t.isVoid = true) : t = .void := by
  obtain ⟨name, args, suffix⟩ := t
  simp only [isVoid, Bool.and_eq_true, beq_iff_eq, List.isEmpty_iff, String.isEmpty_iff] at h
  obtain ⟨⟨rfl, rfl⟩, rfl⟩ := h
  rfl

namespace Method

/-- The method after a request for a mode: one that is in that mode is left alone. -/
def switch (m : Method) (target : MethodMode) : Method :=
  if m.mode == target then m else m.convert false target

/-- The method after requests for several modes, one after another. -/
def switches (m : Method) (targets : List MethodMode) : Method := targets.foldl switch m

/-- What a method may turn into. -/
def forms (m : Method) : List Method := [m, m.toSync, m.toAsync, m.toSync.toAsync]

variable {m r : Method}

theorem mode_eq_sync_iff : m.mode = .sync ↔ m.isAsync = false := by
  cases h : m.isAsync <;> simp [mode, h]

theorem isAsync_toSync (m : Method) : m.toSync.isAsync = false := by
  simp [toSync, isAsync]

theorem toAsync_of_isAsync (h : m.isAsync = true) : m.toAsync = m := by
  simp [toAsync, h]

/-- A type is deferred by its name, whatever its arguments are. -/
theorem isDeferred_task (args : List TypeRef) : TypeRef.isDeferred ⟨"Task", args, ""⟩ = true := by
  have h : ∀ args, TypeRef.isDeferred ⟨"Task", args, ""⟩ = TypeRef.isDeferred ⟨"Task", [], ""⟩ :=
    fun _ => rfl
  rw [h]
  decide

theorem filter_append_async {modifiers : List String} (h : "async" ∉ modifiers) :
    (modifiers ++ ["async"]).filter (· != "async") = modifiers := by
  rw [List.filter_append, List.filter_eq_self.mpr]
  · simp
  · intro w hw
    rw [bne_iff_ne]
    rintro rfl
    exact h hw

/-- To wrap and to unwrap gives back a method that was not asynchronous. -/
theorem toSync_toAsync (h : m.isAsync = false) : m.toAsync.toSync = m := by
  have hmodifiers : (m.modifiers ++ ["async"]).filter (· != "async") = m.modifiers :=
    filter_append_async (by simpa [isAsync] using h)
  cases hvoid : m.returnType.isVoid with
  | true =>
    have hunwrapped : m.toAsync.toSync = { m with returnType := .void } := by
      simp [toAsync, toSync, h, hvoid, hmodifiers, isDeferred_task]
    rw [hunwrapped, ← TypeRef.eq_void_of_isVoid hvoid]
  | false => simp [toAsync, toSync, h, hvoid, hmodifiers, isDeferred_task]

@[simp] theorem mode_switch (m : Method) (target : MethodMode) :
    (m.switch target).mode = target := by
  unfold switch
  split
  · rename_i h
    exact beq_iff_eq.mp h
  · exact m.mode_convert target

/-- A request changes nothing but the modifiers and the return type. -/
theorem exists_switch_eq (m : Method) (target : MethodMode) : ∃ modifiers returnType,
    m.switch target = { m with modifiers, returnType } := by
  unfold switch
  split
  · exact ⟨m.modifiers, m.returnType, rfl⟩
  · exact m.exists_convert_eq target

/-- One request does not lead out of the forms. A form that is asynchronous was wrapped last, so that
unwrapping leads back to the form before, and a form that is not is the method itself or one that was
unwrapped. -/
theorem switch_mem_forms (h : r ∈ m.forms) (target : MethodMode) : r.switch target ∈ m.forms := by
  unfold switch
  split
  · exact h
  · rename_i hmode
    have hsync : m.toSync.mode = .sync := mode_eq_sync_iff.mpr m.isAsync_toSync
    simp only [forms, List.mem_cons, List.not_mem_nil, or_false] at h ⊢
    cases target with
    | sync =>
      simp only [convert, Bool.false_eq_true, ↓reduceIte]
      rcases h with rfl | rfl | rfl | rfl
      · exact .inr (.inl rfl)
      · simp [hsync] at hmode
      · cases hasync : m.isAsync with
        | true => exact .inr (.inl (by rw [toAsync_of_isAsync hasync]))
        | false => exact .inl (toSync_toAsync hasync)
      · exact .inr (.inl (toSync_toAsync m.isAsync_toSync))
    | async =>
      simp only [convert, Bool.false_eq_true, ↓reduceIte]
      have hasync : ∀ k : Method, k.toAsync.mode = .async := fun k => k.mode_convert .async
      rcases h with rfl | rfl | rfl | rfl
      · exact .inr (.inr (.inl rfl))
      · exact .inr (.inr (.inr rfl))
      · simp [hasync] at hmode
      · simp [hasync] at hmode

/-- No sequence of requests leads out of the forms. -/
theorem switches_mem_forms (h : r ∈ m.forms) (targets : List MethodMode) :
    r.switches targets ∈ m.forms := by
  induction targets generalizing r with
  | nil => exact h
  | cons target rest ih => exact ih (switch_mem_forms h target)

theorem exists_switches_eq (m : Method) (targets : List MethodMode) : ∃ modifiers returnType,
    m.switches targets = { m with modifiers, returnType } := by
  induction targets generalizing m with
  | nil => exact ⟨m.modifiers, m.returnType, rfl⟩
  | cons target rest ih =>
    obtain ⟨modifiers, returnType, hswitch⟩ := m.exists_switch_eq target
    obtain ⟨modifiers', returnType', hrest⟩ := ih (m.switch target)
    exact ⟨modifiers', returnType', hrest.trans (by rw [hswitch])⟩

theorem mode_switches {targets : List MethodMode} {last : MethodMode}
    (h : targets.getLast? = some last) (m : Method) : (m.switches targets).mode = last := by
  obtain ⟨init, rfl⟩ := List.getLast?_eq_some_iff.mp h
  simp [switches]

/-- Switching a method to and fro never drifts. What was wrapped is unwrapped to what it was, for
every return type. After any requests for modes, the method is in the mode that was asked for last,
has one of four forms, and differs from what it was in modifiers and return type alone. -/
theorem switches_never_drift (m : Method) :
    (m.isAsync = false → m.toAsync.toSync = m) ∧
    ∀ (targets : List MethodMode) (last : MethodMode), targets.getLast? = some last →
      (m.switches targets = m ∨ m.switches targets = m.toSync ∨ m.switches targets = m.toAsync ∨
        m.switches targets = m.toSync.toAsync) ∧
      (m.switches targets).mode = last ∧
      (m.switches targets).name = m.name ∧ (m.switches targets).typeParams = m.typeParams ∧
      (m.switches targets).parameters = m.parameters ∧
      (m.switches targets).constraints = m.constraints ∧ (m.switches targets).body = m.body := by
  refine ⟨toSync_toAsync, fun targets last hlast => ⟨?_, mode_switches hlast m, ?_⟩⟩
  · simpa [forms] using switches_mem_forms (m := m) (r := m) List.mem_cons_self targets
  · obtain ⟨modifiers, returnType, hframe⟩ := m.exists_switches_eq targets
    rw [hframe]
    exact ⟨rfl, rfl, rfl, rfl, rfl⟩

/-- A method with two layers of the deferred type that is not marked asynchronous. -/
def nestedTask : Method where
  name := "Load"
  modifiers := ["public"]
  returnType := ⟨"Task", [⟨"Task", [⟨"int", [], ""⟩], ""⟩], ""⟩
  parameters := []
  body := .block []

theorem switches_never_drift_nestedTask :
    nestedTask.isAsync = false ∧ nestedTask.toAsync.toSync = nestedTask ∧
      [MethodMode.sync, .async, .async, .sync].getLast? = some .sync ∧
      (nestedTask.switches [.sync, .async, .async, .sync]).mode = .sync := by
  have hasync : nestedTask.isAsync = false := by decide
  obtain ⟨hback, hrun⟩ := switches_never_drift nestedTask
  exact ⟨hasync, hback hasync, rfl, (hrun [.sync, .async, .async, .sync] .sync rfl).2.1⟩

end Method

namespace ParsedClass

variable {c : ParsedClass}

/-- A refactoring of a class asks its method for a mode in this way: there is nothing to do for a
method that is in the mode, and otherwise the class is edited towards the switched method. -/
theorem convertMethod_eq_switch (name : String) (text : Text) {index : Nat} {m : Method}
    (hm : c.node.members[index]? = some (.method m)) (target : MethodMode) :
    c.convertMethod false name text index target =
      if m.mode = target then .error .notApplicable
      else c.editTo name text
        { c.node with members := c.node.members.set index (.method (m.switch target)) } := by
  simp only [convertMethod, hm, Bool.false_eq_true, ↓reduceIte, beq_iff_eq]
  split
  · rfl
  · rename_i hmode
    simp [Method.switch, hmode]

end ParsedClass

namespace TypeRef

/-- The type without one layer of the deferred type. -/
def unwrapped (t : TypeRef) : TypeRef :=
  if t.isDeferred then
    match t.args with
    | [] => .void
    | [inner] => inner
    | _ => t
  else t

/-- The type in a layer of the deferred type. -/
def wrapped (t : TypeRef) : TypeRef :=
  if t.isVoid then { name := "Task" } else { name := "Task", args := [t] }

/-- The deferred type as it is written when a result is wrapped: by its short name, around nothing
or around one type other than `void`. -/
structure IsWrapped (t : TypeRef) : Prop where
  name : t.name = "Task"
  suffix : t.suffix = ""
  args : t.args = [] ∨ ∃ inner, t.args = [inner] ∧ inner.isVoid = false

theorem isWrapped_wrapped (t : TypeRef) : t.wrapped.IsWrapped := by
  unfold wrapped
  split
  · exact ⟨rfl, rfl, .inl rfl⟩
  · rename_i h
    exact ⟨rfl, rfl, .inr ⟨t, rfl, by simpa using h⟩⟩

theorem IsWrapped.wrapped_unwrapped {t : TypeRef} (h : t.IsWrapped) : t.unwrapped.wrapped = t := by
  obtain ⟨name, args, suffix⟩ := t
  obtain ⟨hname, hsuffix, hargs⟩ := h
  simp only at hname hsuffix hargs
  subst hname hsuffix
  have hdeferred : TypeRef.isDeferred ⟨"Task", args, ""⟩ = true := Method.isDeferred_task args
  rcases hargs with rfl | ⟨inner, rfl, hinner⟩
  · simp [unwrapped, hdeferred, wrapped, void, isVoid]
  · simp [unwrapped, hdeferred, wrapped, hinner]

/-- What is wrapped again after unwrapping is what it was exactly if it was written as wrapping
writes it: nothing else is ever written. -/
theorem wrapped_unwrapped_iff {t : TypeRef} : t.unwrapped.wrapped = t ↔ t.IsWrapped :=
  ⟨fun h => h ▸ isWrapped_wrapped t.unwrapped, IsWrapped.wrapped_unwrapped⟩

/-- The full name of the deferred type does not come back. -/
example : wrapped (unwrapped ⟨"System.Threading.Tasks.Task", [], ""⟩) =
    ⟨"Task", [], ""⟩ := by decide

end TypeRef

namespace Method

/-- Modifiers are as they were after `async` is taken out and put at the end exactly if it stood
there, and nowhere else. -/
theorem filter_append_async_iff {modifiers : List String} :
    modifiers.filter (· != "async") ++ ["async"] = modifiers ↔
      ∃ rest, modifiers = rest ++ ["async"] ∧ "async" ∉ rest := by
  constructor
  · intro h
    exact ⟨modifiers.filter (· != "async"), h.symm, by simp⟩
  · rintro ⟨rest, rfl, hrest⟩
    rw [filter_append_async hrest]

/-- The method after the way to sync and back. -/
theorem toAsync_toSync_eq (m : Method) :
    m.toSync.toAsync =
      { m with
        modifiers := m.modifiers.filter (· != "async") ++ ["async"]
        returnType := m.returnType.unwrapped.wrapped } := by
  rw [toAsync, if_neg (by simp [isAsync_toSync])]
  rfl

/-- The comparison of trees sees every difference in the modifiers and the return type. -/
theorem beq_with_iff (m : Method) (modifiers : List String) (returnType : TypeRef) :
    (({ m with modifiers, returnType } : Method) == m) = true ↔
      modifiers = m.modifiers ∧ returnType = m.returnType := by
  constructor
  · intro h
    have h : instBEqMethod.beq { m with modifiers, returnType } m = true := h
    obtain ⟨name, typeParams, modifiers', returnType', parameters, constraints, body⟩ := m
    simp only [instBEqMethod.beq, Bool.and_eq_true, beq_iff_eq] at h
    exact ⟨h.2.2.1, h.2.2.2.1⟩
  · rintro ⟨rfl, rfl⟩
    exact beq_self_eq_true m

/-- The way to sync and back gives back exactly the methods that are marked `async` once, after all
other modifiers, and return the deferred type by its short name, without a suffix, and with no
argument or with one that is not `void`. This holds of the comparison of trees too, which ignores
white space. -/
theorem toAsync_toSync_iff (m : Method) :
    (m.toSync.toAsync = m ↔
      (∃ rest, m.modifiers = rest ++ ["async"] ∧ "async" ∉ rest) ∧ m.returnType.IsWrapped) ∧
    ((m.toSync.toAsync == m) = true ↔ m.toSync.toAsync = m) := by
  have hparts : m.toSync.toAsync = m ↔
      m.modifiers.filter (· != "async") ++ ["async"] = m.modifiers ∧
        m.returnType.unwrapped.wrapped = m.returnType := by
    rw [toAsync_toSync_eq]
    constructor
    · intro h
      exact ⟨congrArg Method.modifiers h, congrArg Method.returnType h⟩
    · rintro ⟨hmodifiers, hreturn⟩
      rw [hmodifiers, hreturn]
  constructor
  · rw [hparts, filter_append_async_iff, TypeRef.wrapped_unwrapped_iff]
  · rw [hparts, toAsync_toSync_eq, beq_with_iff]

end Method

end ClassRefactor
