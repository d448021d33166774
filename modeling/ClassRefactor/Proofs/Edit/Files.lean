import ClassRefactor.Proofs.Collect
import ClassRefactor.Proofs.Edit.Normal
import ClassRefactor.Proofs.Text.Bytes

/-!
# Edits of several files

A workspace edit is applied to the files one after another. Each file is edited on its own, the
others are left as they are, and the first file that cannot be edited decides the error.
-/

namespace ClassRefactor

namespace FileMap

variable {files result out : FileMap} {file : String}

/-- The names of the files, in their order. -/
def names (files : FileMap) : List String := files.map Prod.fst

theorem names_set (files : FileMap) (file : String) (text : Text) :
    (files.set file text).names = files.names := by
  simp only [names, set, List.map_map]
  refine List.map_congr_left fun p _ => ?_
  simp only [Function.comp_apply]
  split <;> rfl

theorem get?_cons (name : String) (text : Text) (files : FileMap) (file : String) :
    get? ((name, text) :: files) file = if file == name then some text else files.get? file := by
  rw [get?, List.lookup_cons]
  cases file == name <;> rfl

theorem get?_set_self (files : FileMap) (file : String) (text : Text) :
    (files.set file text).get? file = (files.get? file).map fun _ => text := by
  induction files with
  | nil => rfl
  | cons p rest ih =>
    obtain ⟨name, t⟩ := p
    have hset : set ((name, t) :: rest) file text =
        (if name == file then (name, text) else (name, t)) :: set rest file text := rfl
    rw [hset, get?_cons]
    by_cases h : name = file
    · simp [h, get?_cons]
    · simp [h, Ne.symm h, get?_cons, ih]

theorem get?_set_of_ne (files : FileMap) {file other : String} (h : other ≠ file) (text : Text) :
    (files.set file text).get? other = files.get? other := by
  induction files with
  | nil => rfl
  | cons p rest ih =>
    obtain ⟨name, t⟩ := p
    have hset : set ((name, t) :: rest) file text =
        (if name == file then (name, text) else (name, t)) :: set rest file text := rfl
    rw [hset, get?_cons]
    by_cases hname : name = file
    · subst hname
      simp [h, get?_cons, ih]
    · simp [hname, get?_cons, ih]

/-! Groups of edits are applied one file after another. -/

variable {groups : List (String × List TextEdit)}

theorem applyGroups_cons (files : FileMap) (group : String × List TextEdit)
    (groups : List (String × List TextEdit)) (result : FileMap) :
    applyGroups files (group :: groups) result = (files.edited group.1 group.2).bind fun text =>
      applyGroups files groups (result.set group.1 text) := rfl

/-- All groups are applied if each of them can be. -/
theorem exists_applyGroups_iff :
    (∃ out, applyGroups files groups result = .ok out) ↔
      ∀ group ∈ groups, ∃ text, files.edited group.1 group.2 = .ok text := by
  induction groups generalizing result with
  | nil => simp [applyGroups]
  | cons group groups ih =>
    rw [applyGroups_cons, List.forall_mem_cons]
    cases h : files.edited group.1 group.2 with
    | error e => simp [Except.bind]
    | ok text =>
      simp only [Except.bind, ih]
      simp

theorem names_applyGroups (h : applyGroups files groups result = .ok out) :
    out.names = result.names := by
  induction groups generalizing result with
  | nil => rw [← Except.ok.inj h]
  | cons group groups ih =>
    obtain ⟨text, -, hrest⟩ := bind_eq_ok_iff.mp h
    rw [ih hrest, names_set]

/-- A file without a group is left as it is. -/
theorem get?_applyGroups_of_not_mem (h : applyGroups files groups result = .ok out)
    (hfile : file ∉ groups.map Prod.fst) : out.get? file = result.get? file := by
  induction groups generalizing result with
  | nil => rw [← Except.ok.inj h]
  | cons group groups ih =>
    rw [List.map_cons, List.mem_cons, not_or] at hfile
    obtain ⟨text, -, hrest⟩ := bind_eq_ok_iff.mp h
    rw [ih hrest hfile.2, get?_set_of_ne _ hfile.1]

/-- A file with one group holds afterwards what its edits make of it. -/
theorem get?_applyGroups_of_mem (h : applyGroups files groups result = .ok out)
    (hnodup : (groups.map Prod.fst).Nodup) {edits : List TextEdit}
    (hgroup : (file, edits) ∈ groups) :
    ∃ text, files.edited file edits = .ok text ∧
      out.get? file = (result.get? file).map fun _ => text := by
  induction groups generalizing result with
  | nil => cases hgroup
  | cons group groups ih =>
    rw [List.map_cons, List.nodup_cons] at hnodup
    obtain ⟨text, htext, hrest⟩ := bind_eq_ok_iff.mp h
    rcases List.mem_cons.mp hgroup with rfl | hgroup
    · exact ⟨text, htext, by rw [get?_applyGroups_of_not_mem hrest hnodup.1, get?_set_self]⟩
    · obtain ⟨text', htext', hget⟩ := ih hrest hnodup.2 hgroup
      have hmem : file ∈ groups.map Prod.fst := List.mem_map.mpr ⟨_, hgroup, rfl⟩
      have hne : file ≠ group.1 := fun heq => hnodup.1 (heq ▸ hmem)
      rw [get?_set_of_ne _ hne] at hget
      exact ⟨text', htext', hget⟩

/-- The first group that cannot be applied decides the error. -/
theorem applyGroups_eq_error {e : EditError} (h : applyGroups files groups result = .error e) :
    ∃ front group back, groups = front ++ group :: back ∧
      files.edited group.1 group.2 = .error e ∧
      ∀ g ∈ front, ∃ text, files.edited g.1 g.2 = .ok text := by
  induction groups generalizing result with
  | nil => cases h
  | cons group groups ih =>
    rw [applyGroups_cons] at h
    cases hgroup : files.edited group.1 group.2 with
    | error e' =>
      rw [hgroup] at h
      obtain rfl := Except.error.inj h
      exact ⟨[], group, groups, rfl, hgroup, by simp⟩
    | ok text =>
      rw [hgroup] at h
      obtain ⟨front, bad, back, rfl, hbad, hfront⟩ := ih h
      exact ⟨group :: front, bad, back, rfl, hbad,
        List.forall_mem_cons.mpr ⟨⟨text, hgroup⟩, hfront⟩⟩

/-- The order of the edits of a file in their group makes no difference. -/
theorem edited_editsOf (files : FileMap) (n : WorkspaceEdit) (file : String) :
    files.edited file (n.editsOf file) = files.edited file (n.of file) := by
  unfold edited
  cases files.get? file with
  | none => rfl
  | some text => exact text.applyEdits_byPosition _

theorem edited_eq_ok_iff {edits : List TextEdit} {text' : Text} :
    files.edited file edits = .ok text' ↔
      ∃ text, files.get? file = some text ∧ text.applyEdits edits = .ok text' := by
  unfold edited
  cases files.get? file <;> simp

theorem names_editsByFile (n : WorkspaceEdit) : n.editsByFile.map Prod.fst = n.files := by
  simp [WorkspaceEdit.editsByFile, Function.comp_def]

section

variable {w n : WorkspaceEdit} (hn : w.normalized = .ok n)
include hn

theorem applyEdit_eq : files.applyEdit w = files.applyGroups n.editsByFile files := by
  rw [applyEdit, hn]
  rfl

theorem forall_mem_editsByFile {P : String → List TextEdit → Prop} :
    (∀ group ∈ n.editsByFile, P group.1 group.2) ↔
      ∀ file, w.Touches file → P file (n.editsOf file) := by
  simp only [WorkspaceEdit.editsByFile, List.forall_mem_map, WorkspaceEdit.mem_files,
    WorkspaceEdit.touches_normalized hn]

/-- A normalized edit is applied if each file that it touches is there and can be edited. -/
theorem exists_applyEdit_iff :
    (∃ out, files.applyEdit w = .ok out) ↔
      ∀ file, w.Touches file → ∃ text, files.edited file (n.of file) = .ok text := by
  rw [applyEdit_eq hn, exists_applyGroups_iff,
    forall_mem_editsByFile hn (P := fun file edits => ∃ text, files.edited file edits = .ok text)]
  simp only [edited_editsOf]

/-- What a file holds after an edit of several files. -/
theorem get?_applyEdit (h : files.applyEdit w = .ok out) (file : String) :
    (¬ w.Touches file → out.get? file = files.get? file) ∧
      (w.Touches file → ∃ text text', files.get? file = some text ∧
        text.applyEdits (n.of file) = .ok text' ∧ out.get? file = some text') := by
  rw [applyEdit_eq hn] at h
  constructor
  · intro huntouched
    refine get?_applyGroups_of_not_mem h ?_
    rwa [names_editsByFile, WorkspaceEdit.mem_files, WorkspaceEdit.touches_normalized hn]
  · intro htouched
    have hnodup : (n.editsByFile.map Prod.fst).Nodup := by
      rw [names_editsByFile]
      exact n.files_pairwise.imp fun hlt => Std.ne_of_lt hlt
    have hgroup : (file, n.editsOf file) ∈ n.editsByFile := by
      refine List.mem_map.mpr ⟨file, ?_, rfl⟩
      rwa [WorkspaceEdit.mem_files, WorkspaceEdit.touches_normalized hn]
    obtain ⟨text', hedited, hget⟩ := get?_applyGroups_of_mem h hnodup hgroup
    rw [edited_editsOf, edited_eq_ok_iff] at hedited
    obtain ⟨text, hfile, happly⟩ := hedited
    exact ⟨text, text', hfile, happly, by rw [hget, hfile]; rfl⟩

/-- The first file that cannot be edited, in the order of the bytes of the names. -/
theorem applyEdit_eq_error {e : EditError} (h : files.applyEdit w = .error e) :
    ∃ file, w.Touches file ∧ files.edited file (n.of file) = .error e ∧
      ∀ other, w.Touches other → Text.bytes other.toList < Text.bytes file.toList →
        ∃ text, files.edited other (n.of other) = .ok text := by
  rw [applyEdit_eq hn] at h
  obtain ⟨front, group, back, hgroups, hbad, hfront⟩ := applyGroups_eq_error h
  have hgroup : group ∈ n.editsByFile := by rw [hgroups]; simp
  obtain ⟨file, hfile, rfl⟩ := List.mem_map.mp hgroup
  rw [edited_editsOf] at hbad
  refine ⟨file, ?_, hbad, fun other hother hbytes => ?_⟩
  · rwa [WorkspaceEdit.mem_files, WorkspaceEdit.touches_normalized hn] at hfile
  have hlt : other < file := Text.bytes_lt_iff.mp hbytes
  have hgroupOther : (other, n.editsOf other) ∈ n.editsByFile := by
    refine List.mem_map.mpr ⟨other, ?_, rfl⟩
    rwa [WorkspaceEdit.mem_files, WorkspaceEdit.touches_normalized hn]
  have horder := n.files_pairwise
  rw [← names_editsByFile, hgroups, List.map_append, List.map_cons, List.pairwise_append,
    List.pairwise_cons] at horder
  rw [hgroups, List.mem_append, List.mem_cons] at hgroupOther
  rcases hgroupOther with hmem | heq | hmem
  · obtain ⟨text, htext⟩ := hfront _ hmem
    exact ⟨text, by rwa [← edited_editsOf]⟩
  · obtain rfl := congrArg Prod.fst heq
    exact absurd hlt (String.lt_irrefl _)
  · exact absurd hlt (String.lt_asymm (horder.2.1.1 other (List.mem_map.mpr ⟨_, hmem, rfl⟩)))

end

/-- A workspace edit acts file by file, and on all of them or on none. It succeeds exactly if it can
be normalized, every edited file is there, and the normalized edits of each file can be applied to
that file. The result has the files it had; one without edits is unchanged, and another holds what
its own edits make of it, whatever happens to the rest. If the edits can be normalized and still
fail, the error is that of the first file that fails, in the order of the bytes of the names. -/
theorem applyEdit_per_file (files : FileMap) (w : WorkspaceEdit) :
    ((∃ out, files.applyEdit w = .ok out) ↔
      ∃ n, w.normalized = .ok n ∧ ∀ file, w.Touches file →
        ∃ text text', files.get? file = some text ∧ text.applyEdits (n.of file) = .ok text') ∧
    (∀ out, files.applyEdit w = .ok out → ∃ n, w.normalized = .ok n ∧ out.names = files.names ∧
      ∀ file, (¬ w.Touches file → out.get? file = files.get? file) ∧
        (w.Touches file → ∃ text text', files.get? file = some text ∧
          text.applyEdits (n.of file) = .ok text' ∧ out.get? file = some text')) ∧
    (∀ w' out out' file, files.applyEdit w = .ok out → files.applyEdit w' = .ok out' →
      w.of file = w'.of file → out.get? file = out'.get? file) ∧
    (∀ n e, w.normalized = .ok n → files.applyEdit w = .error e →
      ∃ file, w.Touches file ∧ files.edited file (n.of file) = .error e ∧
        ∀ other, w.Touches other → Text.bytes other.toList < Text.bytes file.toList →
          ∃ text, files.edited other (n.of other) = .ok text) := by
  have exists_normalized : ∀ {w : WorkspaceEdit} {out : FileMap}, files.applyEdit w = .ok out →
      ∃ n, w.normalized = .ok n := fun h =>
    let ⟨n, hn, _⟩ := bind_eq_ok_iff.mp h
    ⟨n, hn⟩
  refine ⟨⟨?_, ?_⟩, fun out h => ?_, fun w' out out' file h h' hof => ?_, fun n e hn h =>
    applyEdit_eq_error hn h⟩
  · rintro ⟨out, h⟩
    obtain ⟨n, hn⟩ := exists_normalized h
    refine ⟨n, hn, fun file htouched => ?_⟩
    obtain ⟨text, text', hfile, happly, -⟩ := (get?_applyEdit hn h file).2 htouched
    exact ⟨text, text', hfile, happly⟩
  · rintro ⟨n, hn, heach⟩
    refine (exists_applyEdit_iff hn).mpr fun file htouched => ?_
    obtain ⟨text, text', hfile, happly⟩ := heach file htouched
    exact ⟨text', edited_eq_ok_iff.mpr ⟨text, hfile, happly⟩⟩
  · obtain ⟨n, hn⟩ := exists_normalized h
    refine ⟨n, hn, ?_, get?_applyEdit hn h⟩
    rw [applyEdit_eq hn] at h
    exact names_applyGroups h
  · obtain ⟨n, hn⟩ := exists_normalized h
    obtain ⟨n', hn'⟩ := exists_normalized h'
    have htouches : w.Touches file ↔ w'.Touches file := by
      rw [WorkspaceEdit.touches_iff_of_ne_nil, WorkspaceEdit.touches_iff_of_ne_nil, hof]
    obtain ⟨huntouched, htouched⟩ := get?_applyEdit hn h file
    obtain ⟨huntouched', htouched'⟩ := get?_applyEdit hn' h' file
    by_cases hfile : w.Touches file
    · obtain ⟨text, new, hget, happly, hout⟩ := htouched hfile
      obtain ⟨text', new', hget', happly', hout'⟩ := htouched' (htouches.mp hfile)
      obtain rfl := Option.some.inj (hget.symm.trans hget')
      rw [WorkspaceEdit.of_normalized_congr hn hn' hof, happly'] at happly
      rw [hout, hout', Except.ok.inj happly]
    · rw [huntouched hfile, huntouched' (mt htouches.mpr hfile)]

end FileMap

end ClassRefactor
