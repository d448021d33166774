import Mathlib.Order.Bounds.Basic
import ClassRefactor.Proofs.Guarded.Scan

/-!
# Matching delimiters nest

A delimiter is matched where, for the first time, as many have closed as have opened since. Before
that more are open than closed, so the count of those that are open is never taken below zero, and a
delimiter that opens before the match finds its own match before it. Hence the bodies of two classes
never overlap in part.

Nothing is asked of the code. It may be any cells, those of a text or single bytes, balanced or not,
and any two different cells may be the delimiters.
-/

namespace ClassRefactor

/-- The bodies of two classes are apart, or one lies within the other, or they are the same. -/
def ClassLayout.BodiesNest (c d : ClassLayout) : Prop :=
  (c.closing < d.opening ∨ d.closing < c.opening) ∨
    (c.opening < d.opening ∧ d.closing < c.closing) ∨
    (d.opening < c.opening ∧ c.closing < d.closing) ∨
    (c.opening = d.opening ∧ c.closing = d.closing)

namespace Code

/-- From `start` through `stop` as many delimiters close as open. -/
def EvenThrough (opening closing : Char) (code : Code) (start stop : Nat) : Prop :=
  (code.window start (stop + 1)).count opening = (code.window start (stop + 1)).count closing

/-- With the cell at distance `n`, the last delimiter closes of those that the cells open and of
`depth + 1` others. -/
def Closes (opening closing : Char) (depth : Nat) (cells : Code) (n : Nat) : Prop :=
  n < cells.length ∧
    (cells.take (n + 1)).count closing = (cells.take (n + 1)).count opening + depth + 1

/-- The least of some numbers that are all moved up is moved up too. -/
theorem isLeast_shift {P Q : Nat → Prop} {s n : Nat} (h : ∀ k, Q k ↔ ∃ m, P m ∧ m + s = k) :
    IsLeast {k | Q k} n ↔ ∃ m, IsLeast {k | P k} m ∧ m + s = n := by
  constructor
  · rintro ⟨hn, hleast⟩
    obtain ⟨m, hm, rfl⟩ := (h n).mp hn
    refine ⟨m, ⟨hm, fun k hk => ?_⟩, rfl⟩
    have := hleast ((h _).mpr ⟨k, hk, rfl⟩)
    omega
  · rintro ⟨m, ⟨hm, hleast⟩, rfl⟩
    refine ⟨(h _).mpr ⟨m, hm, rfl⟩, fun k hk => ?_⟩
    obtain ⟨l, hl, rfl⟩ := (h k).mp hk
    have := hleast hl
    omega

variable {code : Code} {opening closing : Char}

theorem count_take_cons (c d : Char) (rest : Code) (n : Nat) :
    ((c :: rest).take (n + 1)).count d = [c].count d + (rest.take n).count d := by
  rw [List.take_succ_cons, ← List.singleton_append, List.count_append]

theorem closes_cons_iff {depth next : Nat} {c : Char} {rest : Code}
    (hfirst : ¬Closes opening closing depth (c :: rest) 0)
    (hcount : [c].count closing + next = [c].count opening + depth) (k : Nat) :
    Closes opening closing depth (c :: rest) k ↔
      ∃ m, Closes opening closing next rest m ∧ m + 1 = k := by
  cases k with
  | zero => simpa using hfirst
  | succ m =>
    simp only [Nat.add_right_cancel_iff, exists_eq_right, Closes, count_take_cons,
      List.length_cons]
    omega

section

variable (hne : opening ≠ closing)
include hne

theorem closeFrom_eq_some_iff {depth n : Nat} {cells : Code} :
    closeFrom opening closing depth cells = some n ↔
      IsLeast {k | Closes opening closing depth cells k} n := by
  induction cells generalizing depth n with
  | nil => simp [closeFrom, Closes, IsLeast]
  | cons c rest ih =>
    -- A cell that does not close the last delimiter leaves the rest to be searched.
    have hrest : ∀ {next}, ¬Closes opening closing depth (c :: rest) 0 →
        [c].count closing + next = [c].count opening + depth →
        ((closeFrom opening closing next rest).map (· + 1) = some n ↔
          IsLeast {k | Closes opening closing depth (c :: rest) k} n) := by
      intro next hfirst hcount
      rw [isLeast_shift (closes_cons_iff hfirst hcount), Option.map_eq_some_iff]
      simp only [ih]
    unfold closeFrom
    by_cases hopen : c = opening
    · subst hopen
      simp only [beq_self_eq_true, if_true]
      exact hrest (by simp [Closes, hne]) (by simp [hne]; omega)
    · by_cases hclose : c = closing
      · subst hclose
        simp only [beq_eq_false_iff_ne.mpr hopen, beq_self_eq_true, if_true, Bool.false_eq_true,
          if_false]
        cases depth with
        | zero =>
          have hzero : IsLeast {k | Closes opening c 0 (c :: rest) k} 0 :=
            ⟨by simp [Closes, hopen], fun _ _ => Nat.zero_le _⟩
          rw [Option.some_inj]
          exact ⟨fun h => h ▸ hzero, fun h => hzero.unique h⟩
        | succ depth => exact hrest (by simp [Closes, hopen]) (by simp [hopen]; omega)
      · simp only [beq_eq_false_iff_ne.mpr hopen, beq_eq_false_iff_ne.mpr hclose,
          Bool.false_eq_true, if_false]
        exact hrest (by simp [Closes, hopen, hclose]) (by simp [hopen, hclose])

/-- The count from a delimiter on is one ahead of the count from the cell behind it. -/
theorem evenThrough_iff_closes {start : Nat} {rest : Code}
    (hdrop : code.drop start = opening :: rest) (k : Nat) :
    (start < k ∧ k < code.length ∧ EvenThrough opening closing code start k) ↔
      ∃ m, Closes opening closing 0 rest m ∧ m + (start + 1) = k := by
  have hlength : code.length = start + 1 + rest.length := by
    have := congrArg List.length hdrop
    simp only [List.length_drop, List.length_cons] at this
    omega
  have heven : ∀ m, EvenThrough opening closing code start (m + (start + 1)) ↔
      (rest.take (m + 1)).count closing = (rest.take (m + 1)).count opening + 0 + 1 := by
    intro m
    have hwidth : m + (start + 1) + 1 - start = m + 1 + 1 := by omega
    rw [EvenThrough, window, hdrop, hwidth, count_take_cons, count_take_cons,
      List.count_singleton_self, List.count_singleton, beq_eq_false_iff_ne.mpr hne]
    simp only [Bool.false_eq_true, if_false]
    omega
  constructor
  · rintro ⟨hlt, hk, hkeven⟩
    obtain ⟨m, rfl⟩ : ∃ m, k = m + (start + 1) := ⟨k - (start + 1), by omega⟩
    exact ⟨m, ⟨by omega, (heven m).mp hkeven⟩, rfl⟩
  · rintro ⟨m, ⟨hm, hcloses⟩, rfl⟩
    exact ⟨by omega, by omega, (heven m).mpr hcloses⟩

/-- The match is the first position up to which as many delimiters close as open. -/
theorem matchingClose?_eq_some_iff {start stop : Nat} :
    matchingClose? opening closing code start = some stop ↔
      code[start]? = some opening ∧
        IsLeast {k | start < k ∧ k < code.length ∧ EvenThrough opening closing code start k}
          stop := by
  have hhead : code[start]? = (code.drop start).head? := List.head?_drop.symm
  rw [hhead, matchingClose?]
  cases hdrop : code.drop start with
  | nil => simp
  | cons c rest =>
    by_cases hc : c = opening
    · subst hc
      simp only [beq_self_eq_true, if_true, List.head?_cons, true_and, Option.map_eq_some_iff,
        closeFrom_eq_some_iff hne, isLeast_shift (evenThrough_iff_closes hne hdrop),
        Nat.add_comm (start + 1)]
    · simp [hc]

/-- Before the match more delimiters are open than closed. -/
theorem count_lt_of_lt_match {start stop k : Nat}
    (h : matchingClose? opening closing code start = some stop) (hstart : start ≤ k)
    (hstop : k < stop) :
    (code.window start (k + 1)).count closing < (code.window start (k + 1)).count opening := by
  obtain ⟨hopen, ⟨-, hlength, -⟩, hleast⟩ := (matchingClose?_eq_some_iff hne).mp h
  induction k, hstart using Nat.le_induction with
  | base =>
    rw [window_succ (Nat.le_refl _) hopen, window_of_le (Nat.le_refl _)]
    simp [hne]
  | succ k hk ih =>
    have hlt := ih (by omega)
    have hcell : code[k + 1]? = some code[k + 1] := List.getElem?_eq_getElem (by omega)
    have hnext : code.window start (k + 1 + 1) = code.window start (k + 1) ++ [code[k + 1]] :=
      window_succ (by omega) hcell
    -- One cell closes at most one, and if as many were closed as open, this would be the match.
    have hodd : ¬EvenThrough opening closing code start (k + 1) := fun heven =>
      Nat.not_le_of_lt hstop (hleast ⟨by omega, by omega, heven⟩)
    rw [EvenThrough, hnext, List.count_append, List.count_append] at hodd
    rw [hnext, List.count_append, List.count_append]
    have hone : [code[k + 1]].count closing ≤ 1 := List.count_le_length
    omega

/-- A stretch from a delimiter to its match holds another such stretch whole or not at all. -/
theorem matchingClose?_nests {p q p' q' : Nat} (hlt : p < q)
    (hp : matchingClose? opening closing code p = some p')
    (hq : matchingClose? opening closing code q = some q') : p' < q ∨ q' < p' := by
  by_contra hcross
  rw [not_or, Nat.not_lt, Nat.not_lt] at hcross
  obtain ⟨hqp, hpq⟩ := hcross
  obtain ⟨-, ⟨-, -, hevenp⟩, -⟩ := (matchingClose?_eq_some_iff hne).mp hp
  obtain ⟨-, ⟨-, -, hevenq⟩, -⟩ := (matchingClose?_eq_some_iff hne).mp hq
  -- Up to the inner delimiter more open than close, so after it more close than open.
  have hbefore := count_lt_of_lt_match hne hp (k := q - 1) (by omega) (by omega)
  rw [Nat.sub_add_cancel (by omega)] at hbefore
  have hsplit : code.window p q ++ code.window q (p' + 1) = code.window p (p' + 1) :=
    window_append_window (Nat.le_of_lt hlt) (by omega)
  rw [EvenThrough, ← hsplit, List.count_append, List.count_append] at hevenp
  rcases Nat.lt_or_eq_of_le hpq with hpq | rfl
  · have := count_lt_of_lt_match hne hq (k := p') hqp hpq
    omega
  · rw [EvenThrough] at hevenq
    omega

end

theorem matchingClose?_of_mem_classLayouts {c : ClassLayout} (h : c ∈ code.classLayouts) :
    matchingClose? '{' '}' code c.opening = some c.closing := by
  obtain ⟨keyword, -, hc⟩ := List.mem_filterMap.mp h
  simp only [classAt?] at hc
  split at hc
  · cases hc
  · simp only [Option.bind_eq_bind, Option.bind_eq_some_iff, Option.some.injEq] at hc
    obtain ⟨_, -, _, -, _, hclosing, rfl⟩ := hc
    exact hclosing

theorem bodiesNest_of_mem_classLayouts {c d : ClassLayout} (hc : c ∈ code.classLayouts)
    (hd : d ∈ code.classLayouts) : c.BodiesNest d := by
  have hbraces : '{' ≠ '}' := by decide
  have hcmatch := matchingClose?_of_mem_classLayouts hc
  have hdmatch := matchingClose?_of_mem_classLayouts hd
  rcases Nat.lt_trichotomy c.opening d.opening with hlt | heq | hgt
  · rcases matchingClose?_nests hbraces hlt hcmatch hdmatch with hapart | hinner
    · exact .inl (.inl hapart)
    · exact .inr (.inl ⟨hlt, hinner⟩)
  · rw [heq, hdmatch] at hcmatch
    exact .inr (.inr (.inr ⟨heq, (Option.some.inj hcmatch).symm⟩))
  · rcases matchingClose?_nests hbraces hgt hdmatch hcmatch with hapart | hinner
    · exact .inl (.inr hapart)
    · exact .inr (.inr (.inl ⟨hgt, hinner⟩))

/-- Of two different delimiters, one is matched by the other at the first position up to which as
many close as open, and by none if there is no such position. The search counts the open ones, and
never takes the count below zero. Two delimiters at different positions have matches that are apart
or nested; so have the braces around the bodies of any two classes of a text, unless both classes
have the same body. -/
theorem delimiters_match_and_nest (hne : opening ≠ closing) (code : Code) (text : Text) :
    (∀ start stop, matchingClose? opening closing code start = some stop ↔
      code[start]? = some opening ∧
        IsLeast {k | start < k ∧ k < code.length ∧ EvenThrough opening closing code start k}
          stop) ∧
    (∀ start, Guarded.matchingClose opening closing code start =
      .ok (matchingClose? opening closing code start)) ∧
    (∀ p q p' q', p < q → matchingClose? opening closing code p = some p' →
      matchingClose? opening closing code q = some q' → p' < q ∨ q' < p') ∧
    ∃ file, SourceFile.parse text = .ok file ∧
      ∀ c ∈ file.classes, ∀ d ∈ file.classes, c.layout.BodiesNest d.layout := by
  obtain ⟨file, hfile⟩ := SourceFile.exists_parse text
  refine ⟨fun start stop => matchingClose?_eq_some_iff hne,
    fun start => Guarded.matchingClose_eq hne code start,
    fun p q p' q' => matchingClose?_nests hne, file, hfile, fun c hc d hd => ?_⟩
  exact bodiesNest_of_mem_classLayouts (SourceFile.layout_of_mem_classes hfile hc).1
    (SourceFile.layout_of_mem_classes hfile hd).1

/-- A parenthesis that is never closed, and two classes with one body, the first of which holds a
third class. -/
theorem delimiters_match_and_nest_unclosedCall :
    '(' ≠ ')' ∧ matchingClose? '(' ')' "(a(b)c)(d".toList 0 = some 6 ∧
      IsLeast {k | 0 < k ∧ k < 9 ∧ EvenThrough '(' ')' "(a(b)c)(d".toList 0 k} 6 ∧
      Guarded.matchingClose '(' ')' "(a(b)c)(d".toList 7 = .ok none ∧
      ∃ file, SourceFile.parse "class A : class B { class C { } }".toList = .ok file ∧
        ∀ c ∈ file.classes, ∀ d ∈ file.classes, c.layout.BodiesNest d.layout := by
  have hparens : '(' ≠ ')' := by decide
  obtain ⟨hmatch, hguarded, -, hclasses⟩ := delimiters_match_and_nest hparens "(a(b)c)(d".toList
    "class A : class B { class C { } }".toList
  have houter : matchingClose? '(' ')' "(a(b)c)(d".toList 0 = some 6 := by decide
  exact ⟨hparens, houter, ((hmatch 0 6).mp houter).2, hguarded 7, hclasses⟩

end Code

end ClassRefactor
