import Mathlib.Data.List.Nodup
import ClassRefactor.Proofs.Dependency.Completion
import ClassRefactor.Proofs.Edit.Stable
import ClassRefactor.Proofs.Text.Bytes

/-!
# Collisions explain doubled parameters

Fields that derive one parameter name are reported as a group, and nothing resolves the collision:
each of them that lacks a parameter gets one of that name. A constructor whose parameters had
different names is therefore given two of one name exactly if a group is reported whose name it did
not have before.
-/

namespace ClassRefactor

/-- A field name without the mark that lets a keyword be a name. -/
def unmarked (fieldName : String) : Text :=
  match fieldName.toList with
  | '@' :: rest => rest
  | name => name

/-- A name without its leading underscore, or with one if it has none. -/
def Text.toggleUnderscore : Text → Text
  | '_' :: rest => rest
  | name => '_' :: name

/-- A name that is two underscores before another one, which has none itself. -/
def Text.DoublyUnderscored (name plain : Text) : Prop :=
  name = '_' :: '_' :: plain ∧ plain.head? ≠ some '_'

namespace Text

theorem toggleUnderscore_of_head {name : Text} (h : name.head? ≠ some '_') :
    name.toggleUnderscore = '_' :: name := by
  unfold toggleUnderscore
  split
  · exact absurd rfl h
  · rfl

theorem exists_of_head {name : Text} (h : name.head? = some '_') : ∃ rest, name = '_' :: rest := by
  cases name with
  | nil => cases h
  | cons first rest => exact ⟨rest, by rw [Option.some.inj h]⟩

/-- Only a name with two underscores can lose one and be a name that gained one. -/
theorem toggleUnderscore_eq_of_head {s t : Text} (hs : s.head? = some '_')
    (ht : t.head? ≠ some '_') :
    s.toggleUnderscore = t.toggleUnderscore ↔ s.DoublyUnderscored t := by
  obtain ⟨rest, rfl⟩ := exists_of_head hs
  rw [toggleUnderscore_of_head ht, DoublyUnderscored, List.cons.injEq]
  exact ⟨fun h => ⟨⟨rfl, h⟩, ht⟩, fun h => h.1.2⟩

theorem toggleUnderscore_eq_iff {s t : Text} :
    s.toggleUnderscore = t.toggleUnderscore ↔
      s = t ∨ s.DoublyUnderscored t ∨ t.DoublyUnderscored s := by
  by_cases hs : s.head? = some '_' <;> by_cases ht : t.head? = some '_'
  · have hnot : ¬ s.DoublyUnderscored t ∧ ¬ t.DoublyUnderscored s :=
      ⟨fun h => h.2 ht, fun h => h.2 hs⟩
    obtain ⟨s, rfl⟩ := exists_of_head hs
    obtain ⟨t, rfl⟩ := exists_of_head ht
    simp [toggleUnderscore, hnot]
  · rw [toggleUnderscore_eq_of_head hs ht]
    refine ⟨fun h => .inr (.inl h), ?_⟩
    rintro (rfl | h | h)
    · exact absurd hs ht
    · exact h
    · exact absurd hs h.2
  · rw [eq_comm, toggleUnderscore_eq_of_head ht hs]
    refine ⟨fun h => .inr (.inr h), ?_⟩
    rintro (rfl | h | h)
    · exact absurd ht hs
    · exact absurd ht h.2
    · exact h
  · rw [toggleUnderscore_of_head hs, toggleUnderscore_of_head ht, List.cons.injEq]
    refine ⟨fun h => .inl h.2, ?_⟩
    rintro (rfl | h | h)
    · exact ⟨rfl, rfl⟩
    · exact absurd (by rw [h.1]; rfl) hs
    · exact absurd (by rw [h.1]; rfl) ht

end Text

theorem parameterNameOf_eq (fieldName : String) :
    parameterNameOf fieldName = .ofList (unmarked fieldName).toggleUnderscore := by
  unfold parameterNameOf
  change (match unmarked fieldName with
    | '_' :: rest => String.ofList rest
    | name => .ofList ('_' :: name)) = _
  unfold Text.toggleUnderscore
  split <;> rfl

/-- Two field names share a parameter name if they are the same but for the mark, or if one is the
other with two underscores before it. -/
theorem parameterNameOf_eq_iff {a b : String} :
    parameterNameOf a = parameterNameOf b ↔ unmarked a = unmarked b ∨
      (unmarked a).DoublyUnderscored (unmarked b) ∨
      (unmarked b).DoublyUnderscored (unmarked a) := by
  rw [parameterNameOf_eq, parameterNameOf_eq, String.ofList_inj, Text.toggleUnderscore_eq_iff]

namespace Candidate

/-- The candidates of one parameter name. -/
def ofName (candidates : List Candidate) (name : String) : List Candidate :=
  candidates.filter (·.parameterName == name)

variable {candidates : List Candidate}

theorem mem_parameterNames {name : String} :
    name ∈ parameterNames candidates ↔ ∃ d ∈ candidates, d.parameterName = name := by
  rw [parameterNames, (List.mergeSort_perm ..).mem_iff, List.mem_eraseDups, List.mem_map]

/-- The groups are those of the names that two candidates have, each with all its fields. -/
theorem mem_collisions_iff {g : Collision} :
    g ∈ collisions candidates ↔ 2 ≤ (ofName candidates g.parameterName).length ∧
      g.fieldNames = (ofName candidates g.parameterName).map Candidate.fieldName := by
  obtain ⟨name, fieldNames⟩ := g
  simp only [collisions, List.mem_filter, List.mem_map, decide_eq_true_eq]
  constructor
  · rintro ⟨⟨name', -, hg⟩, hlength⟩
    cases hg
    exact ⟨by simpa [ofName] using hlength, rfl⟩
  · rintro ⟨hlength, hfields⟩
    obtain ⟨d, hd⟩ := List.exists_mem_of_length_pos (Nat.lt_of_lt_of_le Nat.two_pos hlength)
    obtain ⟨hmem, hname⟩ := List.mem_filter.mp hd
    have hnames : name ∈ parameterNames candidates :=
      mem_parameterNames.mpr ⟨d, hmem, by simpa using hname⟩
    subst hfields
    exact ⟨⟨name, hnames, rfl⟩, by simpa using hlength⟩

/-- The groups come in the order of the bytes of their names, no name twice. -/
theorem collisions_pairwise (candidates : List Candidate) :
    (collisions candidates).Pairwise fun g h =>
      Text.bytes g.parameterName.toList < Text.bytes h.parameterName.toList := by
  have hnames : (parameterNames candidates).Pairwise (· < ·) :=
    pairwise_lt_mergeSort_eraseDups (candidates.map Candidate.parameterName)
  refine List.Pairwise.filter _ (List.pairwise_map.mpr (hnames.imp fun h => ?_))
  exact Text.bytes_lt_iff.mpr h

/-- How often a name is given to the parameters that are missing. -/
theorem count_missing {existing : List String} {name : String} (h : name ∉ existing) :
    ((candidates.filter fun d => d.parameterName ∉ existing).map Candidate.parameterName).count
      name = (ofName candidates name).length := by
  rw [List.count, List.countP_map, List.countP_filter, List.countP_eq_length_filter, ofName]
  congr 1
  refine List.filter_congr fun d _ => ?_
  by_cases hd : d.parameterName = name <;> simp [hd, h]

/-- Two missing parameters have the same name exactly if a group is reported whose name is not
there yet. -/
theorem not_nodup_missing_iff (existing : List String) (candidates : List Candidate) :
    ¬ ((candidates.filter fun d => d.parameterName ∉ existing).map
        Candidate.parameterName).Nodup ↔
      ∃ g ∈ collisions candidates, g.parameterName ∉ existing := by
  simp only [List.nodup_iff_count_le_one, not_forall, Nat.not_le]
  constructor
  · rintro ⟨name, hcount⟩
    have hname : name ∉ existing := by
      obtain ⟨d, hd, rfl⟩ := List.mem_map.mp (List.count_pos_iff.mp (Nat.lt_of_succ_lt hcount))
      simpa using (List.mem_filter.mp hd).2
    rw [count_missing hname] at hcount
    exact ⟨⟨name, (ofName candidates name).map fieldName⟩, mem_collisions_iff.mpr ⟨hcount, rfl⟩,
      hname⟩
  · rintro ⟨g, hg, hname⟩
    refine ⟨g.parameterName, ?_⟩
    rw [count_missing hname]
    exact (mem_collisions_iff.mp hg).1

/-- Of a constructor with parameters of different names, only the added ones can share a name. -/
theorem not_nodup_append_missing_iff {existing : List String} (h : existing.Nodup)
    (candidates : List Candidate) :
    ¬ (existing ++ (candidates.filter fun d => d.parameterName ∉ existing).map
        Candidate.parameterName).Nodup ↔
      ∃ g ∈ collisions candidates, g.parameterName ∉ existing := by
  rw [← not_nodup_missing_iff, List.nodup_append]
  refine not_congr ⟨fun hall => hall.2.1, fun hadded => ⟨h, hadded, ?_⟩⟩
  rintro name hname name' hname' rfl
  obtain ⟨d, hd, rfl⟩ := List.mem_map.mp hname'
  exact absurd hname (by simpa using (List.mem_filter.mp hd).2)

end Candidate

namespace ClassNode

variable {c : ClassNode}

/-- The parameter names of the first constructor, none if there is no constructor. -/
def parameterNames (c : ClassNode) : List String :=
  c.firstConstructor?.elim [] fun first => first.2.parameters.map (·.name)

/-- The parameter names after synthesis: those of before, then one for each candidate without. -/
theorem parameterNames_synthesize (h : c.plan?.isSome = true) :
    (c.synthesize false).parameterNames = c.parameterNames ++
      (c.candidates.filter fun d => d.parameterName ∉ c.parameterNames).map
        Candidate.parameterName := by
  obtain ⟨plan, hplan⟩ := Option.isSome_iff_exists.mp h
  have hadded : ∀ candidates : List Candidate,
      (candidates.map Candidate.parameter).map (·.name) =
        candidates.map Candidate.parameterName := fun candidates => by
    rw [List.map_map]
    rfl
  cases hfirst : c.firstConstructor? with
  | none =>
    obtain ⟨k, hk, -, hnew⟩ := synthesize_of_no_constructor hplan hfirst
    simp [parameterNames, hfirst, hnew, hk, hadded]
  | some first =>
    obtain ⟨index, ctor⟩ := first
    obtain ⟨k, statements, -, hk, -, hnew⟩ := synthesize_of_constructor hplan hfirst
    simp only [parameterNames, hfirst, hnew, Option.elim_some, hk, List.map_append, hadded]

/-- Synthesis gives two parameters one name exactly if a group is reported whose name no parameter
had before. -/
theorem not_nodup_synthesize_iff (h : c.plan?.isSome = true) (hnodup : c.parameterNames.Nodup) :
    ∃ index k, (c.synthesize false).firstConstructor? = some (index, k) ∧
      (¬ (k.parameters.map (·.name)).Nodup ↔
        ∃ g ∈ Candidate.collisions c.candidates, g.parameterName ∉ c.parameterNames) := by
  obtain ⟨plan, hplan⟩ := Option.isSome_iff_exists.mp h
  obtain ⟨index, k, -, hfirst, -⟩ := exists_serving hplan
  have hnames : (c.synthesize false).parameterNames = k.parameters.map (·.name) := by
    simp [parameterNames, hfirst]
  refine ⟨index, k, hfirst, ?_⟩
  rw [← hnames, parameterNames_synthesize h]
  exact Candidate.not_nodup_append_missing_iff hnodup c.candidates

end ClassNode

/-- What collision reports say. There is one group for each name that at least two candidates have,
with all their fields in order, and the groups come in the order of the bytes of their names. Two
fields derive one name if they are the same but for the mark, or one is the other with two
underscores before it. And of a constructor whose parameters have different names, synthesis makes
one with two parameters of one name exactly if a group is reported whose name is not among them. -/
theorem collisions_explain_duplicates :
    (∀ candidates : List Candidate,
      ((Candidate.collisions candidates).Pairwise fun g h =>
        Text.bytes g.parameterName.toList < Text.bytes h.parameterName.toList) ∧
      ∀ g : Collision, g ∈ Candidate.collisions candidates ↔
        2 ≤ (candidates.filter (·.parameterName == g.parameterName)).length ∧
        g.fieldNames =
          (candidates.filter (·.parameterName == g.parameterName)).map Candidate.fieldName) ∧
    (∀ a b : String, parameterNameOf a = parameterNameOf b ↔ unmarked a = unmarked b ∨
      (unmarked a).DoublyUnderscored (unmarked b) ∨
      (unmarked b).DoublyUnderscored (unmarked a)) ∧
    ∀ c : ClassNode, c.plan?.isSome = true → c.parameterNames.Nodup →
      ∃ index k, (c.synthesize false).firstConstructor? = some (index, k) ∧
        (¬ (k.parameters.map (·.name)).Nodup ↔
          ∃ g ∈ Candidate.collisions c.candidates, g.parameterName ∉ c.parameterNames) :=
  ⟨fun candidates => ⟨Candidate.collisions_pairwise candidates,
      fun _ => Candidate.mem_collisions_iff⟩,
    fun _ _ => parameterNameOf_eq_iff,
    fun _ => ClassNode.not_nodup_synthesize_iff⟩

/-- A class whose constructor receives one of its dependencies, where the two others collide. -/
def ClassNode.twiceNamed : ClassNode where
  name := "C"
  members := [
    .constructor { name := "C", modifiers := [], parameters := [{ type := ⟨"A", [], ""⟩, name := "b" }]
                   body := .block [] },
    .field { modifiers := ["readonly"], type := ⟨"A", [], ""⟩
             declarators := [⟨"__a", none⟩, ⟨"_b", none⟩, ⟨"@a", none⟩] }]

theorem collisions_explain_duplicates_twiceNamed :
    ∃ k, (ClassNode.twiceNamed.synthesize false).firstConstructor? = some (0, k) ∧
      ¬ (k.parameters.map (·.name)).Nodup := by
  obtain ⟨hexact, -, hsynthesize⟩ := collisions_explain_duplicates
  obtain ⟨index, k, hfirst, hiff⟩ := hsynthesize ClassNode.twiceNamed (by decide) (by decide)
  have hgroup : (⟨"_a", ["__a", "@a"]⟩ : Collision) ∈
      Candidate.collisions ClassNode.twiceNamed.candidates :=
    ((hexact _).2 _).mpr (by decide)
  have hindex : (ClassNode.twiceNamed.synthesize false).firstConstructor?.map (·.1) = some 0 := by
    decide
  rw [hfirst] at hindex
  cases hindex
  exact ⟨k, hfirst, hiff.mpr ⟨_, hgroup, by decide⟩⟩

end ClassRefactor
