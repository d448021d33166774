import ClassRefactor.Files.Path
import ClassRefactor.Proofs.Text.Bytes
import Mathlib.Data.List.Infix

/-!
# Walking a tree

The files of a tree in the order of a walk: depth first, the entries of each directory by their
names. That order is the order of the paths, compared name by name, and sorting loses no file and
makes up none.
-/

namespace ClassRefactor

namespace Path

/-- What an entry of a directory can be called. -/
structure Proper (name : String) : Prop where
  named : isName name = true
  no_slash : '/' ∉ name.toList

instance (name : String) : Decidable (Proper name) :=
  decidable_of_iff (isName name = true ∧ '/' ∉ name.toList)
    ⟨fun h => ⟨h.1, h.2⟩, fun h => ⟨h.1, h.2⟩⟩

theorem Proper.toList_ne {name : String} (h : Proper name) (part : String)
    (hpart : isName part = false) : name.toList ≠ part.toList := by
  intro heq
  obtain rfl := String.toList_inj.mp heq
  exact Bool.false_ne_true (hpart.symm.trans h.named)

theorem Proper.toList_ne_nil {name : String} (h : Proper name) : name.toList ≠ [] :=
  h.toList_ne "" rfl

/-- One path comes before another: at the first name in which they differ, its bytes do. -/
def Before (names others : List String) : Prop :=
  (names.map fun n => Text.bytes n.toList) < others.map fun n => Text.bytes n.toList

theorem before_of_lt {above rest rest' : List String} {name name' : String} (h : name < name') :
    Before (above ++ name :: rest) (above ++ name' :: rest') := by
  have hbytes : Text.bytes name.toList < Text.bytes name'.toList := Text.bytes_lt_iff.mpr h
  rw [Before, List.map_append, List.map_append, List.map_cons, List.map_cons]
  exact List.append_left_lt (List.cons_lt_cons_iff.mpr (.inl hbytes))

theorem joinWith_concat (above : List String) (name : String) :
    joinWith "/" (above ++ [name]) =
      if above = [] then name else joinWith "/" above ++ "/" ++ name := by
  induction above with
  | nil => rfl
  | cons a above ih =>
    cases above with
    | nil => rfl
    | cons b above =>
      rw [if_neg (by simp)] at ih ⊢
      rw [List.cons_append, List.cons_append, joinWith, ← List.cons_append, ih, joinWith]
      simp only [String.append_assoc]

theorem exists_getLast?_joinWith {names : List String} (h : ∀ n ∈ names, Proper n)
    (hne : names ≠ []) : ∃ c, (joinWith "/" names).toList.getLast? = some c ∧ c ≠ '/' := by
  obtain ⟨above, name, rfl⟩ := (List.eq_nil_or_concat' names).resolve_left hne
  have hname := h name (by simp)
  refine ⟨name.toList.getLast hname.toList_ne_nil, ?_, fun hslash => hname.no_slash ?_⟩
  · rw [joinWith_concat]
    split
    · exact List.getLast?_eq_some_getLast _
    · rw [String.toList_append, List.getLast?_append_of_ne_nil _ hname.toList_ne_nil,
        List.getLast?_eq_some_getLast]
  · exact hslash ▸ List.getLast_mem _

/-- Joining a name to the names above it puts one slash between them. -/
theorem join_joinWith {above : List String} (h : ∀ n ∈ above, Proper n) (name : String) :
    join (joinWith "/" above) name = joinWith "/" (above ++ [name]) := by
  rw [joinWith_concat]
  split
  next hnil => simp [hnil, join, joinWith]
  next hne =>
    obtain ⟨c, hc, hslash⟩ := exists_getLast?_joinWith h hne
    have hempty : (joinWith "/" above).isEmpty = false := by
      rw [← Bool.not_eq_true, String.isEmpty_iff]
      intro hnil
      simp [hnil] at hc
    simp [join, hempty, hc, hslash]

end Path

mutual

/-- In each directory of a tree the names are proper, and they stand in a relation, each name to
those after it. -/
def Entry.Named (r : String → String → Prop) : Entry → Prop
  | .file _ _ => True
  | .directory _ entries => Entry.AllNamed r entries

def Entry.AllNamed (r : String → String → Prop) : List Entry → Prop
  | [] => True
  | e :: rest =>
    Path.Proper e.name ∧ e.Named r ∧ (∀ f ∈ rest, r e.name f.name) ∧ Entry.AllNamed r rest

end

mutual

instance Entry.decidableNamed (r : String → String → Prop) [DecidableRel r] :
    (e : Entry) → Decidable (e.Named r)
  | .file _ _ => .isTrue trivial
  | .directory _ entries => Entry.decidableAllNamed r entries

instance Entry.decidableAllNamed (r : String → String → Prop) [DecidableRel r] :
    (es : List Entry) → Decidable (Entry.AllNamed r es)
  | [] => .isTrue trivial
  | e :: rest =>
    have := Entry.decidableNamed r e
    have := Entry.decidableAllNamed r rest
    inferInstanceAs (Decidable (_ ∧ _ ∧ _ ∧ _))

end

namespace Entry

variable {e : Entry} {es : List Entry}

/-! ### Sorting -/

@[simp] theorem name_sorted (e : Entry) : e.sorted.name = e.name := by cases e <;> rfl

theorem mem_insertByName {new : Entry} : e ∈ insertByName new es ↔ e = new ∨ e ∈ es := by
  induction es with
  | nil => simp [insertByName]
  | cons f rest ih =>
    rw [insertByName]
    split
    · rw [List.mem_cons]
    · rw [List.mem_cons, ih, List.mem_cons]
      exact or_left_comm

theorem mem_sortedAll : e ∈ sortedAll es ↔ ∃ f ∈ es, f.sorted = e := by
  induction es with
  | nil => simp [sortedAll]
  | cons f rest ih => simp [sortedAll, mem_insertByName, ih, eq_comm]

theorem filesOfAll_insertByName (above : List String) (new : Entry) (es : List Entry) :
    (filesOfAll above (insertByName new es)).Perm (new.filesFrom above ++ filesOfAll above es) := by
  induction es with
  | nil => rfl
  | cons f rest ih =>
    rw [insertByName]
    split
    · rfl
    · rw [filesOfAll, filesOfAll, ← List.append_assoc]
      refine (ih.append_left _).trans ?_
      rw [← List.append_assoc]
      exact List.perm_append_comm.append_right _

theorem AllNamed.insertByName {new : Entry} (h : AllNamed (· < ·) es)
    (hproper : Path.Proper new.name) (hnamed : new.Named (· < ·))
    (hne : ∀ f ∈ es, new.name ≠ f.name) : AllNamed (· < ·) (insertByName new es) := by
  induction es with
  | nil => exact ⟨hproper, hnamed, by simp, trivial⟩
  | cons f rest ih =>
    obtain ⟨hf, hfnamed, hlt, hrest⟩ := h
    rw [Entry.insertByName]
    split
    next hle =>
      have hnew : new.name < f.name :=
        Std.lt_of_le_of_ne hle (hne f List.mem_cons_self)
      refine ⟨hproper, hnamed, fun g hg => ?_, hf, hfnamed, hlt, hrest⟩
      rcases List.mem_cons.mp hg with rfl | hg
      · exact hnew
      · exact String.lt_trans hnew (hlt g hg)
    next hle =>
      refine ⟨hf, hfnamed, fun g hg => ?_, ih hrest fun g hg => hne g (List.mem_cons_of_mem _ hg)⟩
      rcases mem_insertByName.mp hg with rfl | hg
      · exact String.not_le.mp hle
      · exact hlt g hg

end Entry

mutual

/-- Sorting puts distinct names in order. -/
theorem Entry.Named.sorted {e : Entry} (h : e.Named (· ≠ ·)) : e.sorted.Named (· < ·) :=
  match e, h with
  | .file _ _, _ => trivial
  | .directory _ _, h => Entry.AllNamed.sortedAll h

theorem Entry.AllNamed.sortedAll {es : List Entry} (h : Entry.AllNamed (· ≠ ·) es) :
    Entry.AllNamed (· < ·) (Entry.sortedAll es) :=
  match es, h with
  | [], _ => trivial
  | e :: rest, ⟨hproper, hnamed, hne, hrest⟩ => by
    refine (Entry.AllNamed.sortedAll hrest).insertByName (by simpa using hproper)
      (Entry.Named.sorted hnamed) fun f hf => ?_
    obtain ⟨g, hg, rfl⟩ := Entry.mem_sortedAll.mp hf
    simpa using hne g hg

end

mutual

/-- Sorting keeps the files of a tree. -/
theorem Entry.filesFrom_sorted (above : List String) (e : Entry) :
    (e.sorted.filesFrom above).Perm (e.filesFrom above) :=
  match e with
  | .file _ _ => .refl _
  | .directory name entries => Entry.filesOfAll_sortedAll (above ++ [name]) entries

theorem Entry.filesOfAll_sortedAll (above : List String) (es : List Entry) :
    (Entry.filesOfAll above (Entry.sortedAll es)).Perm (Entry.filesOfAll above es) :=
  match es with
  | [] => .refl _
  | e :: rest =>
    (Entry.filesOfAll_insertByName above e.sorted (Entry.sortedAll rest)).trans
      ((Entry.filesFrom_sorted above e).append (Entry.filesOfAll_sortedAll above rest))

end

/-! ### The paths of a tree -/

mutual

theorem Entry.Named.exists_rest {r : String → String → Prop} {above : List String} {e : Entry}
    {p : List String × Content} (h : e.Named r) (hp : p ∈ e.filesFrom above) :
    ∃ rest, p.1 = above ++ e.name :: rest ∧ ∀ n ∈ rest, Path.Proper n :=
  match e, h, hp with
  | .file _ _, _, hp => by
    obtain rfl := List.mem_singleton.mp hp
    exact ⟨[], rfl, by simp⟩
  | .directory name entries, h, hp => by
    obtain ⟨f, hf, rest, hrest, hproper⟩ := Entry.AllNamed.exists_rest h hp
    exact ⟨f.name :: rest, by simpa [Entry.name] using hrest, hproper⟩

/-- The path of a file leads on by the name of one of the entries, and then by proper names. -/
theorem Entry.AllNamed.exists_rest {r : String → String → Prop} {above : List String}
    {es : List Entry} {p : List String × Content} (h : Entry.AllNamed r es)
    (hp : p ∈ Entry.filesOfAll above es) :
    ∃ e ∈ es, ∃ rest, p.1 = above ++ e.name :: rest ∧ ∀ n ∈ e.name :: rest, Path.Proper n :=
  match es, h, hp with
  | e :: es, ⟨hproper, hnamed, _, hes⟩, hp => by
    rcases List.mem_append.mp hp with hp | hp
    · obtain ⟨rest, hrest, hall⟩ := Entry.Named.exists_rest hnamed hp
      exact ⟨e, List.mem_cons_self, rest, hrest, List.forall_mem_cons.mpr ⟨hproper, hall⟩⟩
    · obtain ⟨f, hf, hrest⟩ := Entry.AllNamed.exists_rest hes hp
      exact ⟨f, List.mem_cons_of_mem _ hf, hrest⟩

end

mutual

theorem Entry.Named.pairwise_before {above : List String} {e : Entry} (h : e.Named (· < ·)) :
    (e.filesFrom above).Pairwise fun p q => Path.Before p.1 q.1 :=
  match e, h with
  | .file _ _, _ => List.pairwise_singleton _ _
  | .directory _ _, h => Entry.AllNamed.pairwise_before h

/-- A walk over a tree in order comes to the files in the order of their paths. -/
theorem Entry.AllNamed.pairwise_before {above : List String} {es : List Entry}
    (h : Entry.AllNamed (· < ·) es) :
    (Entry.filesOfAll above es).Pairwise fun p q => Path.Before p.1 q.1 :=
  match es, h with
  | [], _ => .nil
  | _ :: _, ⟨_, hnamed, hlt, hrest⟩ => by
    refine List.pairwise_append.mpr
      ⟨Entry.Named.pairwise_before hnamed, Entry.AllNamed.pairwise_before hrest,
        fun p hp q hq => ?_⟩
    obtain ⟨rest, hp, -⟩ := hnamed.exists_rest hp
    obtain ⟨f, hf, rest', hq, -⟩ := hrest.exists_rest hq
    rw [hp, hq]
    exact Path.before_of_lt (hlt f hf)

end

end ClassRefactor
