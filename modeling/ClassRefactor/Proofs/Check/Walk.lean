import ClassRefactor.Proofs.Check.Findings
import ClassRefactor.Proofs.Collect
import ClassRefactor.Proofs.Files.Walk
import Mathlib.Algebra.Ring.Nat
import Mathlib.Data.List.Flatten

/-!
# What a check of a directory reads

An exclude pattern acts twice: an excluded directory is not entered, and an excluded file is passed
over. Both together come to one condition on the path of a file, so a walk reads what a flat filter
selects from all files of the tree.
-/

namespace ClassRefactor

/-! ### Extensions -/

theorem Text.splitAtChar_of_not_mem {mark : Char} {t : Text} (h : mark ∉ t) :
    splitAtChar mark t = [t] := by
  induction t with
  | nil => rfl
  | cons c t ih =>
    rw [List.mem_cons, not_or] at h
    rw [splitAtChar, if_neg (by simpa using Ne.symm h.1), ih h.2]

theorem Text.splitAtChar_append {mark : Char} {t : Text} (h : mark ∉ t) (rest : Text) :
    splitAtChar mark (t ++ mark :: rest) = t :: splitAtChar mark rest := by
  induction t with
  | nil => simp [splitAtChar]
  | cons c t ih =>
    rw [List.mem_cons, not_or] at h
    rw [List.cons_append, splitAtChar, if_neg (by simpa using Ne.symm h.1), ih h.2]

namespace Path

theorem splitAtChar_joinWith {names : List String} (h : ∀ n ∈ names, Proper n) (hne : names ≠ []) :
    Text.splitAtChar '/' (joinWith "/" names).toList = names.map String.toList := by
  induction names with
  | nil => exact absurd rfl hne
  | cons a names ih =>
    obtain ⟨ha, hnames⟩ := List.forall_mem_cons.mp h
    cases names with
    | nil => exact Text.splitAtChar_of_not_mem ha.no_slash
    | cons b names =>
      have hcells : (joinWith "/" (a :: b :: names)).toList =
          a.toList ++ '/' :: (joinWith "/" (b :: names)).toList := by
        simp [joinWith, String.toList_append]
      rw [hcells, Text.splitAtChar_append ha.no_slash, ih hnames (List.cons_ne_nil _ _)]
      rfl

end Path

namespace SourceFilter

variable {f : SourceFilter} {above names : List String}

theorem fileName?_joinWith {name : String} (h : ∀ n ∈ above ++ [name], Path.Proper n) :
    fileName? (joinWith "/" (above ++ [name])) = some name.toList := by
  have hall : ((above ++ [name]).map String.toList).filter (fun p => !p.isEmpty && p != ['.']) =
      (above ++ [name]).map String.toList := by
    refine List.filter_eq_self.mpr fun p hp => ?_
    obtain ⟨n, hn, rfl⟩ := List.mem_map.mp hp
    have hempty : n.toList ≠ [] := (h n hn).toList_ne_nil
    have hdot : n.toList ≠ ['.'] := (h n hn).toList_ne "." rfl
    simp [hempty, hdot]
  have hup : name.toList ≠ ['.', '.'] := (h name (by simp)).toList_ne ".." rfl
  rw [fileName?, Path.splitAtChar_joinWith h (by simp)]
  simp only [hall]
  simp [hup]

/-- The extension of a name is what follows its last dot, unless the name begins there. -/
theorem extension?_eq_some_iff {name e : String} (h : ∀ n ∈ above ++ [name], Path.Proper n) :
    extension? (joinWith "/" (above ++ [name])) = some e ↔
      ∃ stem : String, name = stem ++ "." ++ e ∧ stem ≠ "" ∧ '.' ∉ e.toList := by
  simp only [extension?, fileName?_joinWith h, Option.bind_eq_bind, Option.bind_some]
  constructor
  · intro he
    have hsplit := List.takeWhile_append_dropWhile (p := (· != '.')) (l := name.toList.reverse)
    have hdot : '.' ∉ name.toList.reverse.takeWhile (· != '.') := fun hmem => by
      simpa using List.all_eq_true.mp List.all_takeWhile _ hmem
    have hfront := List.head?_dropWhile_not (· != '.') name.toList.reverse
    revert he hsplit hdot hfront
    generalize name.toList.reverse.takeWhile (· != '.') = tail
    generalize name.toList.reverse.dropWhile (· != '.') = front
    intro he hsplit hdot hfront
    rw [← hsplit, List.drop_left] at he
    split at he
    · cases he
    next hlength =>
      obtain rfl := Option.some.inj he
      cases front with
      | nil => simp at hlength
      | cons c front =>
        obtain rfl : c = '.' := by simpa using hfront
        refine ⟨.ofList front.reverse, String.toList_inj.mp ?_, ?_, by simpa using hdot⟩
        · rw [← List.reverse_inj, ← hsplit]
          simp [String.toList_append]
        · intro hnil
          simp [← String.toList_inj] at hnil
          simp [hnil] at hlength
  · rintro ⟨stem, rfl, hstem, hdot⟩
    have hpass : ∀ c ∈ e.toList.reverse, (c != '.') = true := fun c hc => by
      simpa using fun heq : c = '.' => hdot (heq ▸ List.mem_reverse.mp hc)
    have hlength : 0 < stem.toList.length := by
      simpa [List.length_pos_iff] using hstem
    have hreverse : (stem ++ "." ++ e).toList.reverse =
        e.toList.reverse ++ '.' :: stem.toList.reverse := by simp [String.toList_append]
    rw [hreverse, List.takeWhile_append_of_pos hpass, List.takeWhile_cons_of_neg (by simp),
      List.append_nil, List.drop_left, if_neg (by simp; omega), List.reverse_reverse,
      String.ofList_toList]

/-- The condition on a path: all directories on the way can be entered. -/
def opens (f : SourceFilter) (above : List String) : Bool :=
  above.inits.all fun a => a.isEmpty || !f.isExcluded (joinWith "/" a)

/-- Whether a file with a path is read. -/
def admits (f : SourceFilter) (names : List String) : Bool :=
  f.accepts (joinWith "/" names) && f.opens names.dropLast

/-- A file with a path is to be read: it has one of the extensions, it is not excluded, and neither
is a directory on the way to it. -/
structure Selects (f : SourceFilter) (names : List String) : Prop where
  extension : ∃ above, ∃ stem e : String, names = above ++ [stem ++ "." ++ e] ∧ stem ≠ "" ∧
    '.' ∉ e.toList ∧ lower e ∈ f.extensions
  included : f.isExcluded (joinWith "/" names) = false
  entered : ∀ above, above <+: names → above ≠ [] → above ≠ names →
    f.isExcluded (joinWith "/" above) = false

theorem opens_iff : f.opens above = true ↔
    ∀ a, a <+: above → a ≠ [] → f.isExcluded (joinWith "/" a) = false := by
  simp only [opens, List.all_eq_true, List.mem_inits, Bool.or_eq_true, List.isEmpty_iff,
    Bool.not_eq_true', or_iff_not_imp_left]

theorem opens_concat (f : SourceFilter) (above : List String) (name : String) :
    f.opens (above ++ [name]) =
      (f.opens above && !f.isExcluded (joinWith "/" (above ++ [name]))) := by
  rw [Bool.eq_iff_iff, Bool.and_eq_true, Bool.not_eq_true', opens_iff, opens_iff]
  constructor
  · exact fun h => ⟨fun a ha => h a (ha.trans (List.prefix_append _ _)),
      h _ (List.prefix_refl _) (by simp)⟩
  · rintro ⟨h, hname⟩ a ha hne
    rcases List.prefix_concat_iff.mp ha with rfl | ha
    · exact hname
    · exact h a ha hne

theorem hasExtension_iff {name : String} (h : ∀ n ∈ above ++ [name], Path.Proper n) :
    f.hasExtension (joinWith "/" (above ++ [name])) = true ↔
      ∃ stem e : String, name = stem ++ "." ++ e ∧ stem ≠ "" ∧ '.' ∉ e.toList ∧
        lower e ∈ f.extensions := by
  constructor
  · intro hext
    unfold hasExtension at hext
    cases he : extension? (joinWith "/" (above ++ [name])) with
    | none => simp [he] at hext
    | some e =>
      obtain ⟨stem, hname, hstem, hdot⟩ := (extension?_eq_some_iff h).mp he
      exact ⟨stem, e, hname, hstem, hdot, by simpa [he] using hext⟩
  · rintro ⟨stem, e, hname, hstem, hdot, hmem⟩
    have he := (extension?_eq_some_iff h).mpr ⟨stem, hname, hstem, hdot⟩
    simpa [hasExtension, he] using hmem

/-- Reading the condition off the path is the same as stating it. -/
theorem admits_iff (h : ∀ n ∈ names, Path.Proper n) (hne : names ≠ []) :
    f.admits names = true ↔ f.Selects names := by
  obtain ⟨above, name, rfl⟩ := (List.eq_nil_or_concat' names).resolve_left hne
  rw [admits, accepts, Bool.and_eq_true, Bool.and_eq_true, Bool.not_eq_true', hasExtension_iff h,
    List.dropLast_concat, opens_iff]
  constructor
  · rintro ⟨⟨⟨stem, e, hname, hext⟩, hincluded⟩, hopens⟩
    refine ⟨⟨above, stem, e, by rw [hname], hext⟩, hincluded, fun a ha hne hproper => ?_⟩
    exact hopens a ((List.prefix_concat_iff.mp ha).resolve_left hproper) hne
  · rintro ⟨⟨above', stem, e, hname, hext⟩, hincluded, hentered⟩
    obtain ⟨rfl, hlast⟩ := List.append_inj' hname rfl
    refine ⟨⟨⟨stem, e, List.head_eq_of_cons_eq hlast, hext⟩, hincluded⟩, fun a ha hne => ?_⟩
    refine hentered a (ha.trans (List.prefix_append _ _)) hne fun heq => ?_
    have hlength := ha.length_le
    rw [heq, List.length_append, List.length_singleton] at hlength
    exact Nat.not_succ_le_self _ hlength

end SourceFilter

/-! ### The walk -/

section Walk

variable {f : SourceFilter} {r : String → String → Prop} {above : List String}

/-- No file below an excluded directory is read. -/
theorem SourceFilter.filter_admits_of_isExcluded {name : String} {es : List Entry}
    (hnamed : Entry.AllNamed r es) (h : f.isExcluded (joinWith "/" (above ++ [name])) = true) :
    (Entry.filesOfAll (above ++ [name]) es).filter (fun p => f.admits p.1) = [] := by
  refine List.filter_eq_nil_iff.mpr fun p hp hadmits => ?_
  obtain ⟨e, -, rest, hnames, -⟩ := hnamed.exists_rest hp
  have hprefix : above ++ [name] <+: p.1.dropLast := by
    rw [hnames, List.dropLast_append_of_ne_nil (List.cons_ne_nil _ _)]
    exact List.prefix_append _ _
  have hopen := SourceFilter.opens_iff.mp (Bool.and_eq_true_iff.mp hadmits).2 _ hprefix (by simp)
  exact Bool.false_ne_true (hopen.symm.trans h)

end Walk

mutual

theorem Entry.sourcesFrom_eq {f : SourceFilter} {r : String → String → Prop} {above : List String}
    {e : Entry} (habove : ∀ n ∈ above, Path.Proper n) (hopens : f.opens above = true)
    (hproper : Path.Proper e.name) (hnamed : e.Named r) :
    e.sourcesFrom f (joinWith "/" above) =
      ((e.filesFrom above).filter fun p => f.admits p.1).map fun p => (joinWith "/" p.1, p.2) :=
  match e, hproper, hnamed with
  | .file name content, _, _ => by
    have hadmits : f.admits (above ++ [name]) = f.accepts (joinWith "/" (above ++ [name])) := by
      rw [SourceFilter.admits, List.dropLast_concat, hopens, Bool.and_true]
    rw [Entry.sourcesFrom, Entry.filesFrom, Path.join_joinWith habove, List.filter_singleton,
      hadmits]
    cases f.accepts (joinWith "/" (above ++ [name])) <;> rfl
  | .directory name entries, hproper, hnamed => by
    rw [Entry.sourcesFrom, Entry.filesFrom, Path.join_joinWith habove]
    split
    next hexcluded =>
      rw [SourceFilter.filter_admits_of_isExcluded hnamed hexcluded]
      rfl
    next hincluded =>
      refine Entry.sourcesOfAll_eq ?_ ?_ hnamed
      · exact List.forall_mem_append.mpr ⟨habove, List.forall_mem_singleton.mpr hproper⟩
      · rw [SourceFilter.opens_concat, hopens, Bool.eq_false_iff.mpr hincluded]
        rfl

/-- What a walk reads below a directory is what a flat filter selects from all files there. -/
theorem Entry.sourcesOfAll_eq {f : SourceFilter} {r : String → String → Prop} {above : List String}
    {es : List Entry} (habove : ∀ n ∈ above, Path.Proper n) (hopens : f.opens above = true)
    (hnamed : Entry.AllNamed r es) :
    Entry.sourcesOfAll f (joinWith "/" above) es =
      ((Entry.filesOfAll above es).filter fun p => f.admits p.1).map fun p =>
        (joinWith "/" p.1, p.2) :=
  match es, hnamed with
  | [], _ => rfl
  | _ :: _, ⟨hproper, hnamed, _, hrest⟩ => by
    rw [Entry.sourcesOfAll, Entry.filesOfAll, List.filter_append, List.map_append,
      Entry.sourcesFrom_eq habove hopens hproper hnamed, Entry.sourcesOfAll_eq habove hopens hrest]

end

/-! ### The report -/

/-- A file that a check reads, by the names that lead to it. -/
structure Scanned where
  names : List String
  text : Text
  source : SourceFile

namespace Scanned

def ofFile? : List String × Content → Option Scanned
  | (names, .text t) => (SourceFile.parse t).toOption.map (Scanned.mk names t)
  | (_, .binary _) => none

/-- What is found in a file, under its path from the directory on. -/
def findings (s : Scanned) : List Finding :=
  s.source.findings (displayPath (joinWith "/" s.names)) s.text

/-- The report on some files of a directory. -/
def report (root : String) (scanned : List Scanned) : Report :=
  { root
    filesScanned := scanned.length
    classesScanned := (scanned.map fun s => s.source.classes.length).sum
    findings := scanned.flatMap findings }

theorem ofFile?_eq_some_iff {p : List String × Content} {s : Scanned} :
    ofFile? p = some s ↔ p = (s.names, .text s.text) ∧ SourceFile.parse s.text = .ok s.source := by
  obtain ⟨names, content⟩ := p
  cases content with
  | binary bytes => simp [ofFile?]
  | text t =>
    simp only [ofFile?, Option.map_eq_some_iff, toOption_eq_some_iff]
    constructor
    · rintro ⟨source, hsource, rfl⟩
      exact ⟨rfl, hsource⟩
    · rintro ⟨heq, hsource⟩
      cases heq
      exact ⟨s.source, hsource, rfl⟩

/-- A visit that shows what reading a file gives. -/
structure Shows (p : List String × Content) (v : Visit) : Prop where
  findings : v.findings = (ofFile? p).elim [] findings
  classCount : v.classCount = (ofFile? p).elim 0 fun s => s.source.classes.length
  isSome : v.reading.isSome = (ofFile? p).isSome

theorem exists_shows (root : String) (p : List String × Content) :
    ∃ v, Visit.read (displayPath (joinWith "/" p.1)) (Path.join root (joinWith "/" p.1)) p.2 =
      .ok v ∧ Shows p v := by
  obtain ⟨names, content⟩ := p
  cases content with
  | binary bytes => exact ⟨_, rfl, rfl, rfl, rfl⟩
  | text t =>
    obtain ⟨source, hsource⟩ := SourceFile.exists_parse t
    have hfile : ofFile? (names, .text t) = some ⟨names, t, source⟩ :=
      ofFile?_eq_some_iff.mpr ⟨rfl, hsource⟩
    refine ⟨_, by simp only [Visit.read, hsource]; rfl, ?_, ?_, ?_⟩ <;> rw [hfile] <;> rfl

/-- The report on some visits is that on the files they show. -/
theorem report_ofVisits (root : String) {files : List (List String × Content)}
    {visits : List Visit} (h : List.Forall₂ Shows files visits) :
    Report.ofVisits root visits = report root (files.filterMap ofFile?) := by
  have hclasses : visits.foldl (fun n v => n + v.classCount) 0 =
      (visits.map Visit.classCount).sum := by
    rw [List.sum_eq_foldl, List.foldl_map]
  have hall : visits.countP (fun v => v.reading.isSome) = (files.filterMap ofFile?).length ∧
      (visits.map Visit.classCount).sum =
        ((files.filterMap ofFile?).map fun s => s.source.classes.length).sum ∧
      visits.flatMap Visit.findings = (files.filterMap ofFile?).flatMap findings := by
    clear hclasses
    induction h with
    | nil => exact ⟨rfl, rfl, rfl⟩
    | @cons p v _ _ hshows _ ih =>
      obtain ⟨hcount, hsum, hfindings⟩ := ih
      cases hp : ofFile? p with
      | none =>
        simp [hshows.isSome, hshows.classCount, hshows.findings, hp, hcount, hsum, hfindings]
      | some s =>
        simp [hshows.isSome, hshows.classCount, hshows.findings, hp, hcount, hsum, hfindings]
  rw [Report.ofVisits, report, hclasses, hall.1, hall.2.1, hall.2.2]

end Scanned

/-- The files that a check of a directory reads, in the order of the walk. -/
def Entry.scanned (f : SourceFilter) (directory : Entry) : List Scanned :=
  (directory.sorted.files.filter fun p => f.admits p.1).filterMap Scanned.ofFile?

section Directory

variable {f : SourceFilter} {name : String} {entries : List Entry}

theorem check_eq_report (path : String) (h : Entry.AllNamed (· ≠ ·) entries) :
    check f path (.ok (.directory name entries)) =
      .ok (Scanned.report path ((Entry.directory name entries).scanned f)) := by
  have hsources : (Entry.directory name entries).sources f =
      ((Entry.directory name entries).sorted.files.filter fun p => f.admits p.1).map fun p =>
        (joinWith "/" p.1, p.2) :=
    @Entry.sourcesOfAll_eq f _ [] _ (List.forall_mem_nil _) rfl h.sortedAll
  generalize hfiles : (Entry.directory name entries).sorted.files.filter
    (fun p => f.admits p.1) = files at hsources
  obtain ⟨visits, hvisits⟩ := exists_forall₂ fun p (_ : p ∈ files) => Scanned.exists_shows path p
  have hread : (files.map fun p => (joinWith "/" p.1, p.2)).mapM
      (fun (relative, content) =>
        Visit.read (displayPath relative) (Path.join path relative) content) = .ok visits :=
    mapM_eq_ok_iff.mpr (List.forall₂_map_left_iff.mpr (hvisits.imp fun _ _ h => h.1))
  rw [check, checkVisits, hsources, hread, Entry.scanned, hfiles,
    ← Scanned.report_ofVisits path (hvisits.imp fun _ _ h => h.2)]
  rfl

theorem Entry.mem_scanned (h : Entry.AllNamed (· ≠ ·) entries) {s : Scanned} :
    s ∈ (Entry.directory name entries).scanned f ↔
      (s.names, .text s.text) ∈ (Entry.directory name entries).files ∧
        SourceFile.parse s.text = .ok s.source ∧ f.Selects s.names := by
  have hfiles : ∀ p, p ∈ (Entry.directory name entries).sorted.files ↔
      p ∈ (Entry.directory name entries).files := fun p =>
    (Entry.filesOfAll_sortedAll [] entries).mem_iff
  have hadmits : (s.names, .text s.text) ∈ (Entry.directory name entries).files →
      (f.admits s.names = true ↔ f.Selects s.names) := fun hs => by
    obtain ⟨e, -, rest, hnames, hproper⟩ := h.exists_rest hs
    replace hnames : s.names = e.name :: rest := hnames
    exact SourceFilter.admits_iff (hnames ▸ hproper) (hnames ▸ List.cons_ne_nil _ _)
  simp only [scanned, List.mem_filterMap, List.mem_filter, Scanned.ofFile?_eq_some_iff, hfiles]
  constructor
  · rintro ⟨p, ⟨hp, hselects⟩, rfl, hsource⟩
    exact ⟨hp, hsource, (hadmits hp).mp hselects⟩
  · rintro ⟨hs, hsource, hselects⟩
    exact ⟨_, ⟨hs, (hadmits hs).mpr hselects⟩, rfl, hsource⟩

theorem Entry.pairwise_scanned (h : Entry.AllNamed (· ≠ ·) entries) :
    ((Entry.directory name entries).scanned f).Pairwise fun s t =>
      Path.Before s.names t.names := by
  have hbefore : (Entry.directory name entries).sorted.files.Pairwise fun p q =>
      Path.Before p.1 q.1 := h.sortedAll.pairwise_before
  refine List.Pairwise.filterMap _ (fun p q hpq s hs t ht => ?_)
    (hbefore.sublist List.filter_sublist)
  obtain ⟨rfl, -⟩ := Scanned.ofFile?_eq_some_iff.mp hs
  obtain ⟨rfl, -⟩ := Scanned.ofFile?_eq_some_iff.mp ht
  exact hpq

/-- Whatever else is excluded, no other file is read. -/
theorem Entry.scanned_sublist {stricter : SourceFilter} (directory : Entry)
    (hextensions : stricter.extensions = f.extensions)
    (hexcluded : ∀ p, f.isExcluded p = true → stricter.isExcluded p = true) :
    (directory.scanned stricter).Sublist (directory.scanned f) := by
  have hincluded : ∀ p, stricter.isExcluded p = false → f.isExcluded p = false := fun p h =>
    Bool.eq_false_iff.mpr fun hp => Bool.false_ne_true (h.symm.trans (hexcluded p hp))
  refine List.Sublist.filterMap _ (List.monotone_filter_right _ fun p hp => ?_)
  rw [SourceFilter.admits, SourceFilter.accepts, Bool.and_eq_true, Bool.and_eq_true,
    Bool.not_eq_true', SourceFilter.opens_iff] at hp ⊢
  obtain ⟨⟨hext, hfile⟩, hopens⟩ := hp
  refine ⟨⟨?_, hincluded _ hfile⟩, fun a ha hne => hincluded _ (hopens a ha hne)⟩
  rwa [SourceFilter.hasExtension, ← hextensions]

end Directory

/-! ### The settings -/

namespace CheckConfig

variable {config : CheckConfig} {f : SourceFilter}

/-- A path is excluded if some pattern matches it. -/
theorem isExcluded_iff (h : config.filter = .ok f) (path : String) :
    f.isExcluded path = true ↔ ∃ pattern ∈ config.exclude, ∃ glob,
      Glob.parse pattern = .ok glob ∧ Glob.isMatch glob path = true := by
  obtain ⟨globs, hglobs, hf⟩ := bind_eq_ok_iff.mp h
  obtain rfl := Except.ok.inj hf
  have hparse : ∀ pattern glob,
      (Glob.parse pattern).mapError (BadPattern.mk pattern) = .ok glob ↔
        Glob.parse pattern = .ok glob := fun pattern glob => by
    cases Glob.parse pattern <;> simp [Except.mapError]
  have hforall := mapM_eq_ok_iff.mp hglobs
  rw [List.any_eq_true]
  constructor
  · rintro ⟨glob, hglob, hmatch⟩
    obtain ⟨pattern, hpattern, hok⟩ := exists_of_forall₂_right hforall hglob
    exact ⟨pattern, hpattern, glob, (hparse _ _).mp hok, hmatch⟩
  · rintro ⟨pattern, hpattern, glob, hok, hmatch⟩
    obtain ⟨glob', hglob', hok'⟩ := exists_of_forall₂_left hforall hpattern
    obtain rfl := Except.ok.inj (((hparse _ _).mp hok').symm.trans hok)
    exact ⟨glob', hglob', hmatch⟩

/-- Extensions are compared in lower case, and a dot before one is not part of it. -/
theorem extensions_eq (h : config.filter = .ok f) :
    f.extensions = config.extensions.map fun e =>
      SourceFilter.lower (.ofList (e.toList.dropWhile (· == '.'))) := by
  obtain ⟨globs, -, hf⟩ := bind_eq_ok_iff.mp h
  obtain rfl := Except.ok.inj hf
  rfl

end CheckConfig

/-- A check of a directory reads exactly the files with a fitting extension that are text, are not
excluded and have no excluded directory above them. It reads them depth first, each directory in the
order of the names, counts them and their classes, and reports their findings one after another.
Excluding more, by a predicate or by further patterns, only leaves findings out. -/
theorem check_directory (f : SourceFilter) (path name : String) {entries : List Entry}
    (h : Entry.AllNamed (· ≠ ·) entries) :
    ∃ scanned : List Scanned,
      (∀ s, s ∈ scanned ↔
        (s.names, .text s.text) ∈ (Entry.directory name entries).files ∧
          SourceFile.parse s.text = .ok s.source ∧ f.Selects s.names) ∧
      scanned.Pairwise (fun s t => Path.Before s.names t.names) ∧
      check f path (.ok (.directory name entries)) = .ok (Scanned.report path scanned) ∧
      (∀ stricter : SourceFilter, stricter.extensions = f.extensions →
        (∀ p, f.isExcluded p = true → stricter.isExcluded p = true) →
        ∃ report, check stricter path (.ok (.directory name entries)) = .ok report ∧
          report.findings.Sublist (scanned.flatMap Scanned.findings)) ∧
      ∀ config : CheckConfig, config.filter = .ok f →
        (f.extensions = config.extensions.map fun e =>
          SourceFilter.lower (.ofList (e.toList.dropWhile (· == '.')))) ∧
        (∀ p, f.isExcluded p = true ↔ ∃ pattern ∈ config.exclude, ∃ glob,
          Glob.parse pattern = .ok glob ∧ Glob.isMatch glob p = true) ∧
        ∀ (exclude : List String) (stricter : SourceFilter), config.exclude ⊆ exclude →
          { config with exclude := exclude }.filter = .ok stricter →
          ∃ report, check stricter path (.ok (.directory name entries)) = .ok report ∧
            report.findings.Sublist (scanned.flatMap Scanned.findings) := by
  have hstricter : ∀ stricter : SourceFilter, stricter.extensions = f.extensions →
      (∀ p, f.isExcluded p = true → stricter.isExcluded p = true) →
      ∃ report, check stricter path (.ok (.directory name entries)) = .ok report ∧
        report.findings.Sublist
          (((Entry.directory name entries).scanned f).flatMap Scanned.findings) :=
    fun stricter hextensions hexcluded =>
      ⟨_, check_eq_report path h,
        (Entry.scanned_sublist _ hextensions hexcluded).flatMap Scanned.findings⟩
  refine ⟨(Entry.directory name entries).scanned f, fun s => Entry.mem_scanned h,
    Entry.pairwise_scanned h, check_eq_report path h, hstricter, fun config hconfig =>
      ⟨CheckConfig.extensions_eq hconfig, CheckConfig.isExcluded_iff hconfig,
        fun exclude stricter hsubset hfilter => hstricter stricter ?_ fun p hp => ?_⟩⟩
  · rw [CheckConfig.extensions_eq hconfig, CheckConfig.extensions_eq hfilter]
  · obtain ⟨pattern, hpattern, hmatch⟩ := (CheckConfig.isExcluded_iff hconfig p).mp hp
    exact (CheckConfig.isExcluded_iff hfilter p).mpr ⟨pattern, hsubset hpattern, hmatch⟩

/-- Two sources that a check reads, next to one that is not text, one below an excluded directory
and a file of another kind. -/
def mixedEntries : List Entry :=
  [.directory "src"
    [.file "B.cs" (.text "class B{readonly X x;}".toList),
      .file "A.CS" (.text "class A{readonly X x;}".toList),
      .file "C.cs" (.binary ⟨#[255]⟩),
      .directory "obj" [.file "D.cs" (.text "class D{readonly X x;}".toList)]],
    .file "notes.txt" (.text "class E{readonly X x;}".toList)]

theorem check_directory_mixed :
    Entry.AllNamed (· ≠ ·) mixedEntries ∧ ∃ f stricter,
      CheckConfig.filter {} = .ok f ∧
      CheckConfig.filter { exclude := ["**/B*", "**/bin/**", "**/obj/**"] } = .ok stricter ∧
      ∃ scanned : List Scanned, scanned.length = 2 ∧
        (∀ s, s ∈ scanned ↔
          (s.names, .text s.text) ∈ (Entry.directory "app" mixedEntries).files ∧
            SourceFile.parse s.text = .ok s.source ∧ f.Selects s.names) ∧
        scanned.Pairwise (fun s t => Path.Before s.names t.names) ∧
        check f "app" (.ok (.directory "app" mixedEntries)) = .ok (Scanned.report "app" scanned) ∧
        ∃ report, check stricter "app" (.ok (.directory "app" mixedEntries)) = .ok report ∧
          report.findings.Sublist (scanned.flatMap Scanned.findings) := by
  have hnamed : Entry.AllNamed (· ≠ ·) mixedEntries := by decide +kernel
  have hcount : ((CheckConfig.filter {}).toOption.map fun f =>
      (check f "app" (.ok (.directory "app" mixedEntries))).toOption.map (·.filesScanned)) =
        some (some 2) := by decide +kernel
  have hstricter : (CheckConfig.filter
      { exclude := ["**/B*", "**/bin/**", "**/obj/**"] }).toOption.isSome = true := by
    decide +kernel
  obtain ⟨f, hf, hfiles⟩ := Option.map_eq_some_iff.mp hcount
  obtain ⟨stricter, hstricter⟩ := Option.isSome_iff_exists.mp hstricter
  rw [toOption_eq_some_iff] at hf hstricter
  obtain ⟨scanned, hmem, hordered, hcheck, -, hconfig⟩ := check_directory f "app" "app" hnamed
  have hlength : scanned.length = 2 := by
    rw [hcheck] at hfiles
    exact Option.some.inj hfiles
  exact ⟨hnamed, f, stricter, hf, hstricter, scanned, hlength, hmem, hordered, hcheck,
    (hconfig {} hf).2.2 _ stricter (by simp) hstricter⟩

end ClassRefactor
