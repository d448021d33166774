import ClassRefactor.Proofs.Action.Marks
import ClassRefactor.Proofs.Action.Safety

/-!
# Resolving all classes of a file

The edits of each class are computed without regard to the others. They are made together unless two
of them overlap, as they do when a class is laid out anew around another one.
-/

namespace ClassRefactor

namespace ParsedClass

variable {text : Text} {file : SourceFile} {c d : ParsedClass}

/-- The edits that resolve a class; none if it needs none. -/
def editsFor (c : ParsedClass) (name : String) (text : Text) : List TextEdit :=
  match c.resolve false name text with
  | .ok w => w.edits
  | .error _ => []

theorem editsFor_of_not_applicable (name : String) (text : Text)
    (h : c.node.isApplicable false = false) : c.editsFor name text = [] := by
  unfold editsFor
  rcases resolve_eq_error name text h with h | h <;> rw [h]

/-- The edits for a class that needs some: each is an addition to it. -/
theorem editsFor_spec (hfile : SourceFile.parse text = .ok file) (hc : c ∈ file.classes)
    (name : String) (happlicable : c.node.isApplicable false = true) :
    c.editsFor name text ≠ [] ∧ TextEdit.Apart (c.editsFor name text) ∧
      ∀ e ∈ c.editsFor name text, ∃ r, c.Addition text r ∧ e = r.toEdit name := by
  obtain ⟨plan, hplan⟩ := ClassNode.exists_plan_of_isApplicable happlicable
  obtain ⟨rs, hresolve, hapart, hlength, hadditions⟩ := exists_additions hfile hc name hplan
  unfold editsFor
  rw [hresolve]
  refine ⟨?_, hapart, fun e he => ?_⟩
  · intro hnil
    rw [List.map_eq_nil_iff.mp hnil] at hlength
    simp at hlength
  · obtain ⟨r, hr, rfl⟩ := List.mem_map.mp he
    exact ⟨r, hadditions r hr, rfl⟩

/-- A class that is laid out anew gets one edit, from the end of its header to its closing brace. -/
theorem exists_editsFor_eq (hfile : SourceFile.parse text = .ok file) (hc : c ∈ file.classes)
    (name : String) (happlicable : c.node.isApplicable false = true) (hrelaid : c.IsRelaid text) :
    ∃ replacement, c.editsFor name text =
      [⟨name, ⟨c.headerStop text, c.layout.closing + 1⟩, replacement⟩] := by
  obtain ⟨plan, hplan⟩ := ClassNode.exists_plan_of_isApplicable happlicable
  have hindex : plan.constructorIndex = none := by
    rcases ClassNode.plan?_cases hplan with ⟨-, hshape⟩ | ⟨index, ctor, ss, hfirst, -⟩
    · rw [hshape]
    · rw [hrelaid.1] at hfirst
      cases hfirst
  obtain ⟨-, hresolve⟩ := resolve_eq_of_no_constructor (cuttable_of_mem_classes hfile hc) name
    hplan hindex
  rw [if_pos hrelaid.2] at hresolve
  unfold editsFor
  rw [hresolve]
  exact ⟨_, rfl⟩

/-- Whatever the class, an edit for it is an addition to it, and it needs the edit. -/
theorem addition_of_mem_editsFor (hfile : SourceFile.parse text = .ok file) (hc : c ∈ file.classes)
    {name : String} {e : TextEdit} (he : e ∈ c.editsFor name text) :
    c.node.isApplicable false = true ∧ ∃ r, c.Addition text r ∧ e = r.toEdit name := by
  by_cases happlicable : c.node.isApplicable false = true
  · exact ⟨happlicable, (editsFor_spec hfile hc name happlicable).2.2 e he⟩
  · rw [editsFor_of_not_applicable name text (by simpa using happlicable)] at he
    cases he

/-- Within a class that is laid out anew, every edit of another class begins after its opening brace
and before its closing one. -/
theorem Addition.inside (hfile : SourceFile.parse text = .ok file) (hc : c ∈ file.classes)
    (hd : d ∈ file.classes) (hopening : c.layout.opening < d.layout.opening)
    (hclosing : d.layout.closing < c.layout.closing) {r : Replacement} (h : d.Addition text r) :
    c.layout.opening < r.range.start ∧ r.range.start < c.layout.closing := by
  have hordered := (wellLaid_mask hfile hd).ordered
  obtain ⟨hfrom, hbraces, hto, -⟩ := braces_spec (wellLaid_mask hfile hd)
  cases h with
  | relaid _ hrange =>
    have hle := (headerStop_spec (cuttable_of_mem_classes hfile hd)).2.2.1
    have := (bare_headerStop hfile hd).lt_start (wellLaid_mask hfile hc).opens (by decide) hopening
    rw [hrange]
    simp only
    omega
  | before hinserts hafter =>
    have := hinserts.ordered
    have := hinserts.before
    omega
  | parameters hparts hrange =>
    obtain ⟨-, hinside, hstop, hblock⟩ := parameterStop_within hfile hd hparts
    rw [braces_of_some hparts] at hbraces hto
    simp only at hbraces hto
    rw [hrange]
    simp only [Range.emptyAt]
    omega

end ParsedClass

namespace SourceFile

variable {text : Text} {file : SourceFile}

open ParsedClass

/-- The edits for each class, one class after another. -/
def allEdits (file : SourceFile) (name : String) (text : Text) : List TextEdit :=
  file.classes.flatMap fun c => c.editsFor name text

theorem resolutionEdits_eq (hfile : parse text = .ok file) (name : String)
    {cs : List ParsedClass} (hcs : ∀ c ∈ cs, c ∈ file.classes) :
    resolutionEdits name text cs = .ok (cs.flatMap fun c => c.editsFor name text) := by
  induction cs with
  | nil => rfl
  | cons c rest ih =>
    have hrest := ih fun d hd => hcs d (List.mem_cons_of_mem _ hd)
    unfold resolutionEdits
    rw [List.flatMap_cons, hrest]
    by_cases happlicable : c.node.isApplicable false = true
    · obtain ⟨w, hw, -⟩ := exists_resolve hfile (hcs c List.mem_cons_self) name happlicable
      simp only [editsFor, hw]
      rfl
    · have hresolve : c.resolve false name text = .error .notApplicable := by
        simp [resolve, happlicable]
      simp only [editsFor, hresolve, List.nil_append]

theorem resolveEvery_eq (hfile : parse text = .ok file) (name : String) :
    file.resolveEvery name text =
      if (file.allEdits name text).isEmpty then .error .notApplicable
      else (WorkspaceEdit.normalized { edits := file.allEdits name text }).mapError .edit := by
  unfold resolveEvery
  rw [resolutionEdits_eq hfile name fun _ hc => hc]
  rfl

/-- The edits of all classes name the file and have their ends in order. -/
theorem allEdits_ordered (hfile : parse text = .ok file) {name : String} {e : TextEdit}
    (he : e ∈ file.allEdits name text) : e.file = name ∧ e.range.start ≤ e.range.stop := by
  obtain ⟨c, hc, hec⟩ := List.mem_flatMap.mp he
  obtain ⟨-, r, hr, rfl⟩ := addition_of_mem_editsFor hfile hc hec
  exact ⟨rfl, (hr.bounds hfile hc).2.2.1⟩

theorem allEdits_eq_nil_iff (hfile : parse text = .ok file) (name : String) :
    file.allEdits name text = [] ↔ ∀ c ∈ file.classes, c.node.isApplicable false = false := by
  rw [allEdits, List.flatMap_eq_nil_iff]
  constructor
  · intro h c hc
    by_contra happlicable
    exact (editsFor_spec hfile hc name (by simpa using happlicable)).1 (h c hc)
  · intro h c hc
    exact editsFor_of_not_applicable name text (h c hc)

/-- If some class needs edits, they decide about the file. -/
theorem resolveEvery_of_applicable (hfile : parse text = .ok file) (name : String)
    {c : ParsedClass} (hc : c ∈ file.classes) (happlicable : c.node.isApplicable false = true) :
    file.resolveEvery name text =
      (WorkspaceEdit.normalized { edits := file.allEdits name text }).mapError .edit := by
  rw [resolveEvery_eq hfile, if_neg]
  rw [List.isEmpty_iff, allEdits_eq_nil_iff hfile]
  intro h
  rw [h c hc] at happlicable
  cases happlicable

/-- Nothing fails but for an overlap. -/
theorem resolveEvery_eq_error (hfile : parse text = .ok file) {name : String} {e : RefactorError}
    (h : file.resolveEvery name text = .error e) :
    e = .notApplicable ∧ (∀ c ∈ file.classes, c.node.isApplicable false = false) ∨
      ∃ first second, e = .edit (.overlapping name first second) := by
  rw [resolveEvery_eq hfile] at h
  split at h
  · rename_i hnil
    exact .inl ⟨(Except.error.inj h).symm,
      (allEdits_eq_nil_iff hfile name).mp (List.isEmpty_iff.mp hnil)⟩
  · right
    cases hn : WorkspaceEdit.normalized { edits := file.allEdits name text } with
    | ok w =>
      rw [hn] at h
      cases h
    | error e' =>
      rw [hn] at h
      obtain rfl := Except.error.inj h
      obtain ⟨x, y, hsublist, -, -, rfl⟩ := TextEdit.normalized_eq_error hn
      have hy := TextEdit.mem_sorted.mp
        (hsublist.subset (List.mem_cons_of_mem x List.mem_cons_self))
      exact ⟨x.range, y.range, by rw [(allEdits_ordered hfile hy).1]⟩

/-- There is nothing to do exactly when no class needs edits. -/
theorem resolveEvery_eq_notApplicable_iff (hfile : parse text = .ok file) (name : String) :
    file.resolveEvery name text = .error .notApplicable ↔
      ∀ c ∈ file.classes, c.node.isApplicable false = false := by
  constructor
  · intro h
    rcases resolveEvery_eq_error hfile h with ⟨-, hnone⟩ | ⟨first, second, heq⟩
    · exact hnone
    · cases heq
  · intro h
    rw [resolveEvery_eq hfile, (allEdits_eq_nil_iff hfile name).mpr h]
    rfl

/-- If the classes that need edits keep off each other, all edits can be made at once. -/
theorem exists_resolveEvery (hfile : parse text = .ok file) (name : String)
    (hoff : file.classes.Pairwise fun c d => c.node.isApplicable false = true →
      d.node.isApplicable false = true → KeepsOff text c d ∧ KeepsOff text d c)
    {c : ParsedClass} (hc : c ∈ file.classes) (happlicable : c.node.isApplicable false = true) :
    ∃ w, file.resolveEvery name text = .ok w := by
  have hbeside : (file.allEdits name text).Pairwise fun a b => a.range.Beside b.range := by
    rw [allEdits, List.pairwise_flatMap]
    constructor
    · intro c hc
      by_cases happlicable : c.node.isApplicable false = true
      · have hapart := (editsFor_spec hfile hc name happlicable).2.1
        exact hapart.apart.imp fun hab => .inl hab.2.1
      · rw [editsFor_of_not_applicable name text (by simpa using happlicable)]
        exact .nil
    · refine hoff.imp_of_mem fun {c d} hc hd hkeep a ha b hb => ?_
      obtain ⟨hca, r, hr, rfl⟩ := addition_of_mem_editsFor hfile hc ha
      obtain ⟨hda, s, hs, rfl⟩ := addition_of_mem_editsFor hfile hd hb
      obtain ⟨hcd, hdc⟩ := hkeep hca hda
      exact (hr.stakes hfile hc).beside hfile hc hd hcd hdc (hs.stakes hfile hd)
  obtain ⟨w, hw⟩ := TextEdit.exists_normalized_of_beside
    (fun e he => (allEdits_ordered hfile he).2) hbeside
  refine ⟨w, ?_⟩
  rw [resolveEvery_of_applicable hfile name hc happlicable, hw]
  rfl

/-- A class that is laid out anew around another class that needs edits spoils the whole file. -/
theorem resolveEvery_of_relaid_around (hfile : parse text = .ok file) (name : String)
    {c d : ParsedClass} (hc : c ∈ file.classes) (hd : d ∈ file.classes)
    (hca : c.node.isApplicable false = true) (hda : d.node.isApplicable false = true)
    (hrelaid : c.IsRelaid text) (hopening : c.layout.opening < d.layout.opening)
    (hclosing : d.layout.closing < c.layout.closing) :
    ∃ first second,
      file.resolveEvery name text = .error (.edit (.overlapping name first second)) := by
  obtain ⟨replacement, hedits⟩ := exists_editsFor_eq hfile hc name hca hrelaid
  obtain ⟨hne, -, hadditions⟩ := editsFor_spec hfile hd name hda
  obtain ⟨b, hb⟩ := List.exists_mem_of_ne_nil _ hne
  obtain ⟨s, hs, rfl⟩ := hadditions b hb
  have hinside := hs.inside hfile hc hd hopening hclosing
  have hheader := (headerStop_spec (cuttable_of_mem_classes hfile hc)).2.2.1
  have ha : ⟨name, ⟨c.headerStop text, c.layout.closing + 1⟩, replacement⟩ ∈
      file.allEdits name text :=
    List.mem_flatMap.mpr ⟨c, hc, by rw [hedits]; exact List.mem_singleton_self _⟩
  have hnot := TextEdit.not_exists_normalized (fun e he => (allEdits_ordered hfile he).2) ha
    (List.mem_flatMap.mpr ⟨d, hd, hb⟩) rfl (by simp only [Replacement.toEdit]; omega)
    (by simp only [Replacement.toEdit]; omega)
  have hevery := resolveEvery_of_applicable hfile name hc hca
  cases hn : WorkspaceEdit.normalized { edits := file.allEdits name text } with
  | ok w => exact absurd ⟨w, hn⟩ hnot
  | error e =>
    rw [hn] at hevery
    rcases resolveEvery_eq_error hfile hevery with ⟨heq, -⟩ | ⟨first, second, heq⟩
    · cases heq
    · exact ⟨first, second, hevery.trans (congrArg Except.error heq)⟩

/-- What becomes of a file whose classes are all resolved. There is nothing to do exactly when no
class needs edits. If those that do keep off each other, the file is edited. If one of them is laid
out anew and another one is inside it, two edits overlap and the file is refused. There is no other
failure. -/
theorem resolveEvery_outcome (text : Text) :
    ∃ file, parse text = .ok file ∧ ∀ name : String,
      (file.resolveEvery name text = .error .notApplicable ↔
        ∀ c ∈ file.classes, c.node.isApplicable false = false) ∧
      ((file.classes.Pairwise fun c d => c.node.isApplicable false = true →
          d.node.isApplicable false = true → KeepsOff text c d ∧ KeepsOff text d c) →
        ∀ c ∈ file.classes, c.node.isApplicable false = true →
          ∃ w, file.resolveEvery name text = .ok w) ∧
      (∀ c ∈ file.classes, ∀ d ∈ file.classes, c.node.isApplicable false = true →
        d.node.isApplicable false = true → c.IsRelaid text →
        c.layout.opening < d.layout.opening → d.layout.closing < c.layout.closing →
        ∃ first second,
          file.resolveEvery name text = .error (.edit (.overlapping name first second))) ∧
      ∀ e, file.resolveEvery name text = .error e →
        e = .notApplicable ∨ ∃ first second, e = .edit (.overlapping name first second) := by
  obtain ⟨file, hfile⟩ := exists_parse text
  refine ⟨file, hfile, fun name => ⟨resolveEvery_eq_notApplicable_iff hfile name, ?_, ?_, ?_⟩⟩
  · intro hoff c hc happlicable
    exact exists_resolveEvery hfile name hoff hc happlicable
  · intro c hc d hd hca hda hrelaid hopening hclosing
    exact resolveEvery_of_relaid_around hfile name hc hd hca hda hrelaid hopening hclosing
  · intro e he
    exact (resolveEvery_eq_error hfile he).imp_left And.left

/-- Two nested classes, each with a dependency and on lines of its own. -/
def nestedClasses : Text :=
  "class A\n\x7b\n readonly X _x;\n class B\n \x7b\n  readonly Y _y;\n \x7d\n\x7d\n".toList

theorem resolveEvery_outcome_nestedClasses :
    ∃ file w, parse nestedClasses = .ok file ∧ file.resolveEvery "C.cs" nestedClasses = .ok w := by
  obtain ⟨file, hfile, houtcome⟩ := resolveEvery_outcome nestedClasses
  have hrun : (parse nestedClasses).toOption.map (fun f => f.classes.map fun c =>
      (c.node.isApplicable false, c.braces.stop, c.isOneLine nestedClasses)) =
      some [(true, 58, false), (true, 56, false)] := by
    decide +kernel
  rw [hfile] at hrun
  simp only [Except.toOption, Option.map_some, Option.some.injEq] at hrun
  obtain ⟨c, ds, hclasses, hc, hds⟩ := List.map_eq_cons_iff.mp hrun
  obtain ⟨d, rest, rfl, hd, hrest⟩ := List.map_eq_cons_iff.mp hds
  obtain rfl := List.map_eq_nil_iff.mp hrest
  simp only [Prod.mk.injEq] at hc hd
  have hoff : ∀ e f : ParsedClass, e.braces.stop ≠ f.braces.stop →
      e.isOneLine nestedClasses = false → KeepsOff nestedClasses e f := by
    intro e f hne hlines
    refine ⟨hne, fun hrelaid => ?_⟩
    rw [hrelaid.2] at hlines
    cases hlines
  obtain ⟨w, hw⟩ := (houtcome "C.cs").2.1 (by
    rw [hclasses]
    refine List.pairwise_pair.mpr fun _ _ => ⟨hoff c d ?_ hc.2.2, hoff d c ?_ hd.2.2⟩ <;>
      rw [hc.2.1, hd.2.1] <;> decide) c (by rw [hclasses]; exact List.mem_cons_self) hc.1
  exact ⟨file, w, hfile, hw⟩

/-- The same classes on one line. -/
def nestedOnOneLine : Text :=
  "class A \x7b readonly X _x; class B \x7b readonly Y _y; \x7d \x7d".toList

/-- The edits of nested classes on one line overlap. -/
theorem resolveEvery_nestedOnOneLine_overlaps :
    ∃ file first second, parse nestedOnOneLine = .ok file ∧
      file.resolveEvery "C.cs" nestedOnOneLine =
        .error (.edit (.overlapping "C.cs" first second)) := by
  obtain ⟨file, hfile⟩ := exists_parse nestedOnOneLine
  have hrun : (parse nestedOnOneLine).toOption.map (fun f => f.classes.map fun c =>
      (c.node.isApplicable false && c.node.firstConstructor?.isNone && c.isOneLine nestedOnOneLine,
        c.layout.opening, c.layout.closing)) =
      some [(true, 8, 52), (true, 33, 50)] := by
    decide +kernel
  rw [hfile] at hrun
  simp only [Except.toOption, Option.map_some, Option.some.injEq] at hrun
  obtain ⟨c, ds, hclasses, hc, hds⟩ := List.map_eq_cons_iff.mp hrun
  obtain ⟨d, rest, rfl, hd, -⟩ := List.map_eq_cons_iff.mp hds
  simp only [Prod.mk.injEq, Bool.and_eq_true, Option.isNone_iff_eq_none] at hc hd
  obtain ⟨first, second, hoverlap⟩ := resolveEvery_of_relaid_around hfile "C.cs"
    (by rw [hclasses]; exact List.mem_cons_self)
    (by rw [hclasses]; exact List.mem_cons_of_mem _ List.mem_cons_self)
    hc.1.1.1 hd.1.1.1 ⟨hc.1.1.2, hc.1.2⟩ (by rw [hc.2.1, hd.2.1]; decide)
    (by rw [hc.2.2, hd.2.2]; decide)
  exact ⟨file, first, second, hfile, hoverlap⟩

end SourceFile

end ClassRefactor
