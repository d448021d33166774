import Mathlib.Data.List.Sort
import ClassRefactor.Proofs.Code.Local

/-!
# Whole words

The search for a word goes on behind each match, and still finds the word wherever it stands as a
whole identifier: within a match every position follows an identifier cell. So the search may be
done piece by piece, as long as no identifier runs from one piece into the next.
-/

namespace ClassRefactor.Code

/-- The word stands at a position as a whole identifier. -/
structure WholeAt (word code : Code) (p : Nat) : Prop where
  shows : code.Shows p word
  before : p = 0 ∨ code.isBreak (p - 1) = true
  after : code.isBreak (p + word.length) = true

/-- No identifier runs from one piece of code into the next. -/
def Apart (l r : Code) : Prop :=
  (∀ c, l.getLast? = some c → isIdentCell c = false) ∨
    ∀ c, r.head? = some c → isIdentCell c = false

theorem apart_of_head {l r : Code} {c : Char} (hr : r.head? = some c)
    (hc : isIdentCell c = false) : Apart l r := by
  refine .inr fun d hd => ?_
  rw [hr] at hd
  rwa [← Option.some.inj hd]

theorem apart_of_last {l r : Code} {c : Char} (hl : l.getLast? = some c)
    (hc : isIdentCell c = false) : Apart l r := by
  refine .inl fun d hd => ?_
  rw [hl] at hd
  rwa [← Option.some.inj hd]

theorem isBreak_of_getElem? {code : Code} {p : Nat} {c : Char} (h : code[p]? = some c) :
    code.isBreak p = !isIdentCell c := by
  rw [isBreak, h]

theorem isBreak_append_left {l : Code} {q : Nat} (hq : q < l.length) (r : Code) :
    (l ++ r).isBreak q = l.isBreak q := by
  rw [isBreak, isBreak, List.getElem?_append_left hq]

theorem isBreak_append_right (l r : Code) (q : Nat) :
    (l ++ r).isBreak (l.length + q) = r.isBreak q := by
  rw [isBreak, isBreak, List.getElem?_append_right (Nat.le_add_right ..), Nat.add_sub_cancel_left]

/-- On at least one side of a seam between pieces that are apart stands no identifier cell. -/
theorem Apart.isBreak {l r : Code} (h : Apart l r) (hl : l ≠ []) :
    l.isBreak (l.length - 1) = true ∨ r.isBreak 0 = true := by
  rcases h with h | h
  · left
    have hcell := List.getLast?_eq_getElem? (l := l)
    rw [List.getLast?_eq_some_getLast hl] at hcell
    rw [isBreak_of_getElem? hcell.symm, h _ (List.getLast?_eq_some_getLast hl)]
    rfl
  · right
    cases r with
    | nil => rfl
    | cons c r => rw [isBreak_of_getElem? (c := c) rfl, h c rfl]; rfl

theorem shows_append_left_iff {l r word : Code} {p : Nat} (hle : p + word.length ≤ l.length) :
    (l ++ r).Shows p word ↔ l.Shows p word := by
  rw [Shows, Shows, List.drop_append_of_le_length (by omega)]
  constructor
  · intro h
    exact List.prefix_of_prefix_length_le h (List.prefix_append _ _)
      (by rw [List.length_drop]; omega)
  · exact fun h => h.trans (List.prefix_append _ _)

theorem shows_append_right_iff {l r word : Code} {q : Nat} :
    (l ++ r).Shows (l.length + q) word ↔ r.Shows q word := by
  rw [Shows, Shows, ← List.drop_drop, List.drop_left]

theorem Shows.isBreak_eq_false {word code : Code} {p i : Nat} (h : code.Shows p word)
    (hword : ∀ c ∈ word, isIdentCell c = true) (hi : i < word.length) :
    code.isBreak (p + i) = false := by
  have hcell := h.getElem? hi
  rw [List.getElem?_eq_getElem hi] at hcell
  rw [isBreak_of_getElem? hcell, hword _ (List.getElem_mem _)]
  rfl

section

variable {word code : Code}

theorem mem_occurrencesFrom {skip pos q : Nat} {cells : Code} (hcells : code.drop pos = cells)
    (h : q ∈ occurrencesFrom word skip pos cells) : pos ≤ q ∧ code.Shows q word := by
  induction cells generalizing skip pos with
  | nil => simp [occurrencesFrom] at h
  | cons c rest ih =>
    have hrest : code.drop (pos + 1) = rest := by rw [← List.drop_drop, hcells]; rfl
    have hnext : ∀ {skip}, q ∈ occurrencesFrom word skip (pos + 1) rest →
        pos ≤ q ∧ code.Shows q word :=
      fun h => ⟨Nat.le_of_succ_le (ih hrest h).1, (ih hrest h).2⟩
    cases skip with
    | succ skip => exact hnext h
    | zero =>
      simp only [occurrencesFrom] at h
      split at h
      · rename_i hmatch
        rcases List.mem_cons.mp h with rfl | h
        · refine ⟨Nat.le_refl _, ?_⟩
          rw [Shows, hcells]
          exact List.isPrefixOf_iff_prefix.mp hmatch
        · exact hnext h
      · exact hnext h

theorem pairwise_occurrencesFrom (word : Code) (skip pos : Nat) (cells : Code) :
    (occurrencesFrom word skip pos cells).Pairwise (· < ·) := by
  have hle : ∀ (skip pos : Nat) (cells : Code), ∀ q ∈ occurrencesFrom word skip pos cells,
      pos ≤ q := by
    intro skip pos cells q hq
    have hdrop : (List.replicate pos ' ' ++ cells).drop pos = cells :=
      List.drop_left' List.length_replicate
    exact (mem_occurrencesFrom hdrop hq).1
  induction cells generalizing skip pos with
  | nil => exact List.Pairwise.nil
  | cons c rest ih =>
    cases skip with
    | succ skip => exact ih skip (pos + 1)
    | zero =>
      simp only [occurrencesFrom]
      split
      · exact List.pairwise_cons.mpr ⟨fun q hq => hle _ (pos + 1) rest q hq, ih _ _⟩
      · exact ih 0 (pos + 1)

variable (hne : word ≠ []) (hword : ∀ c ∈ word, isIdentCell c = true)
include hne hword

/-- The search misses no whole word: the cells it passes over follow identifier cells. -/
theorem mem_occurrencesFrom_of_wholeAt {skip pos q : Nat} {cells : Code}
    (hcells : code.drop pos = cells)
    (hskip : ∀ i < skip, 0 < pos ∧ code.isBreak (pos + i - 1) = false)
    (hle : pos ≤ q) (hq : WholeAt word code q) : q ∈ occurrencesFrom word skip pos cells := by
  induction cells generalizing skip pos with
  | nil =>
    have hlen := hq.shows.length_le hne
    have hpos := List.length_pos_iff.mpr hne
    have := congrArg List.length hcells
    simp only [List.length_drop, List.length_nil] at this
    omega
  | cons c rest ih =>
    have hrest : code.drop (pos + 1) = rest := by rw [← List.drop_drop, hcells]; rfl
    have hlater : ∀ {skip}, (∀ i < skip, 0 < pos + 1 ∧ code.isBreak (pos + 1 + i - 1) = false) →
        pos ≠ q → q ∈ occurrencesFrom word skip (pos + 1) rest :=
      fun hskip hpos => ih hrest hskip (by omega)
    cases skip with
    | succ skip =>
      refine hlater (fun i hi => ⟨by omega, ?_⟩) ?_
      · have := (hskip (i + 1) (by omega)).2
        rwa [show pos + 1 + i - 1 = pos + (i + 1) - 1 by omega]
      · rintro rfl
        obtain ⟨hpos, hbreak⟩ := hskip 0 (by omega)
        rcases hq.before with h | h
        · omega
        · rw [Nat.add_zero, h] at hbreak
          cases hbreak
    | zero =>
      simp only [occurrencesFrom]
      split
      · rename_i hmatch
        by_cases hpos : pos = q
        · rw [hpos]
          exact List.mem_cons_self
        · refine List.mem_cons_of_mem _ (hlater (fun i hi => ⟨by omega, ?_⟩) hpos)
          -- The cell lies in the match, so it is a cell of the word.
          have hshows : code.Shows pos word := by
            rw [Shows, hcells]
            exact List.isPrefixOf_iff_prefix.mp hmatch
          rw [show pos + 1 + i - 1 = pos + i by omega]
          exact hshows.isBreak_eq_false hword (by omega)
      · rename_i hmatch
        refine hlater (by simp) ?_
        rintro rfl
        have := hq.shows
        rw [Shows, hcells] at this
        exact hmatch (List.isPrefixOf_iff_prefix.mpr this)

theorem mem_wordPositions_iff {p : Nat} : p ∈ wordPositions word code ↔ WholeAt word code p := by
  rw [wordPositions, List.mem_filter]
  constructor
  · rintro ⟨hmem, hbreaks⟩
    simp only [Bool.and_eq_true, Bool.or_eq_true, beq_iff_eq] at hbreaks
    exact ⟨(mem_occurrencesFrom rfl hmem).2, hbreaks.1, hbreaks.2⟩
  · intro h
    refine ⟨mem_occurrencesFrom_of_wholeAt hne hword rfl (by simp) (Nat.zero_le _) h, ?_⟩
    simp only [Bool.and_eq_true, Bool.or_eq_true, beq_iff_eq]
    exact ⟨h.before, h.after⟩

theorem containsWord_iff : containsWord word code = true ↔ ∃ p, WholeAt word code p := by
  simp only [containsWord, ← mem_wordPositions_iff hne hword]
  cases wordPositions word code with
  | nil => simp
  | cons p rest => simp only [List.isEmpty_cons, Bool.not_false, true_iff]; exact ⟨p, by simp⟩

theorem WholeAt.append_left {l r : Code} {p : Nat} (hapart : Apart l r) (h : WholeAt word l p) :
    WholeAt word (l ++ r) p := by
  have hle := h.shows.length_le hne
  have hpos := List.length_pos_iff.mpr hne
  refine ⟨(shows_append_left_iff hle).mpr h.shows, ?_, ?_⟩
  · refine h.before.imp_right fun hb => ?_
    rwa [isBreak_append_left (by omega)]
  · rcases Nat.lt_or_eq_of_le hle with hlt | heq
    · rw [isBreak_append_left hlt]
      exact h.after
    · -- The word ends the piece, so the next piece begins with no identifier cell.
      have hlast := h.shows.isBreak_eq_false hword (i := word.length - 1) (by omega)
      rw [show p + (word.length - 1) = l.length - 1 by omega] at hlast
      rw [heq, ← Nat.add_zero l.length, isBreak_append_right]
      rcases hapart.isBreak (List.ne_nil_of_length_pos (by omega)) with hb | hb
      · rw [hb] at hlast
        cases hlast
      · exact hb

theorem WholeAt.append_right {l r : Code} {q : Nat} (hapart : Apart l r) (h : WholeAt word r q) :
    WholeAt word (l ++ r) (l.length + q) := by
  refine ⟨shows_append_right_iff.mpr h.shows, ?_, ?_⟩
  · by_cases hl : l = []
    · rw [hl]
      exact h.before.imp (by simp [·]) (by simp [·])
    · have hpos := List.length_pos_iff.mpr hl
      right
      rcases Nat.eq_zero_or_pos q with rfl | hq
      · have hfirst := h.shows.isBreak_eq_false hword (List.length_pos_iff.mpr hne)
        rcases hapart.isBreak hl with hb | hb
        · rwa [Nat.add_zero, isBreak_append_left (by omega)]
        · rw [hb] at hfirst
          cases hfirst
      · rw [show l.length + q - 1 = l.length + (q - 1) by omega, isBreak_append_right]
        exact h.before.resolve_left (by omega)
  · rw [Nat.add_assoc, isBreak_append_right]
    exact h.after

theorem wholeAt_append_iff {l r : Code} {p : Nat} (hapart : Apart l r) :
    WholeAt word (l ++ r) p ↔ WholeAt word l p ∨ ∃ q, WholeAt word r q ∧ l.length + q = p := by
  have hpos := List.length_pos_iff.mpr hne
  constructor
  · rintro ⟨hshows, hbefore, hafter⟩
    rcases Nat.lt_or_ge p l.length with hlt | hge
    · left
      have hle : p + word.length ≤ l.length := by
        by_contra hcross
        -- The word would run across the seam.
        rcases hapart.isBreak (List.ne_nil_of_length_pos (by omega)) with hb | hb
        · have := hshows.isBreak_eq_false hword (i := l.length - 1 - p) (by omega)
          rw [show p + (l.length - 1 - p) = l.length - 1 by omega,
            isBreak_append_left (by omega), hb] at this
          cases this
        · have := hshows.isBreak_eq_false hword (i := l.length - p) (by omega)
          rw [show p + (l.length - p) = l.length + 0 by omega, isBreak_append_right, hb] at this
          cases this
      refine ⟨(shows_append_left_iff hle).mp hshows, ?_, ?_⟩
      · refine hbefore.imp_right fun h => ?_
        rwa [isBreak_append_left (by omega)] at h
      · rcases Nat.lt_or_eq_of_le hle with hlt | heq
        · rwa [isBreak_append_left hlt] at hafter
        · rw [heq, Code.isBreak, List.getElem?_eq_none (Nat.le_refl _)]
    · right
      obtain ⟨q, rfl⟩ := Nat.exists_eq_add_of_le hge
      refine ⟨q, ⟨shows_append_right_iff.mp hshows, ?_, ?_⟩, rfl⟩
      · rcases Nat.eq_zero_or_pos q with rfl | hq
        · exact .inl rfl
        · right
          have := hbefore.resolve_left (by omega)
          rwa [show l.length + q - 1 = l.length + (q - 1) by omega, isBreak_append_right] at this
      · rwa [Nat.add_assoc, isBreak_append_right] at hafter
  · rintro (h | ⟨q, h, rfl⟩)
    · exact h.append_left hne hword hapart
    · exact h.append_right hne hword hapart

theorem wordPositions_append {l r : Code} (hapart : Apart l r) :
    wordPositions word (l ++ r) =
      wordPositions word l ++ (wordPositions word r).map (l.length + ·) := by
  have hsorted : ∀ code : Code, (wordPositions word code).Pairwise (· < ·) :=
    fun code => (pairwise_occurrencesFrom word 0 0 code).filter _
  refine (hsorted _).eq_of_mem_iff ?_ fun p => ?_
  · refine List.pairwise_append.mpr ⟨hsorted l, ?_, ?_⟩
    · exact (hsorted r).map _ fun _ _ h => Nat.add_lt_add_left h _
    · intro p hp q hq
      obtain ⟨q, -, rfl⟩ := List.mem_map.mp hq
      have hp := ((mem_wordPositions_iff hne hword).mp hp).shows.length_le hne
      have hpos := List.length_pos_iff.mpr hne
      omega
  · simp only [List.mem_append, List.mem_map, mem_wordPositions_iff hne hword,
      wholeAt_append_iff hne hword hapart]

theorem containsWord_append {l r : Code} (hapart : Apart l r) :
    containsWord word (l ++ r) = (containsWord word l || containsWord word r) := by
  rw [containsWord, wordPositions_append hne hword hapart, containsWord, containsWord]
  cases wordPositions word l <;> simp

/-- Identifier cells alone are one word. -/
theorem eq_of_containsWord (hcode : ∀ c ∈ code, isIdentCell c = true)
    (h : containsWord word code = true) : code = word := by
  obtain ⟨p, hp⟩ := (containsWord_iff hne hword).mp h
  have hbreak : ∀ q, code.isBreak q = true → code.length ≤ q := by
    intro q hq
    by_contra hlt
    have hlt : q < code.length := by omega
    rw [isBreak_of_getElem? (List.getElem?_eq_getElem hlt), hcode _ (List.getElem_mem _)] at hq
    cases hq
  have hpos := List.length_pos_iff.mpr hne
  have hle := hp.shows.length_le hne
  have hstart : p = 0 := by
    rcases hp.before with h | h
    · exact h
    · have := hbreak _ h
      omega
  subst hstart
  have hstop := hbreak _ hp.after
  exact (hp.shows.eq_of_length (by simp only [List.drop_zero]; omega)).symm

theorem containsWord_eq_false (hcode : ∀ c ∈ code, isIdentCell c = false) :
    containsWord word code = false := by
  rw [Bool.eq_false_iff]
  intro h
  obtain ⟨p, hp⟩ := (containsWord_iff hne hword).mp h
  have hpos := List.length_pos_iff.mpr hne
  have hcell := hp.shows.getElem? hpos
  rw [List.getElem?_eq_getElem hpos] at hcell
  have := hcode _ (List.mem_of_getElem? hcell)
  rw [hword _ (List.getElem_mem _)] at this
  cases this

end

/-! Code without the words that declare types, events and operators. -/

/-- No word that marks a member as neither field, constructor nor method stands in the code. -/
def Undeclared (code : Code) : Prop :=
  ∀ k ∈ declarationKeywords, containsWord k.toList code = false

theorem declarationKeywords_ident : ∀ k ∈ declarationKeywords,
    k.toList ≠ [] ∧ ∀ c ∈ k.toList, isIdentCell c = true := by
  decide

theorem Undeclared.append {l r : Code} (hapart : Apart l r) (hl : Undeclared l)
    (hr : Undeclared r) : Undeclared (l ++ r) := by
  intro k hk
  obtain ⟨hne, hword⟩ := declarationKeywords_ident k hk
  rw [containsWord_append hne hword hapart, hl k hk, hr k hk]
  rfl

theorem undeclared_of_ident {code : Code} (hcode : ∀ c ∈ code, isIdentCell c = true)
    (h : ∀ k ∈ declarationKeywords, code ≠ k.toList) : Undeclared code := by
  intro k hk
  obtain ⟨hne, hword⟩ := declarationKeywords_ident k hk
  rw [Bool.eq_false_iff]
  exact fun hcontains => h k hk (eq_of_containsWord hne hword hcode hcontains)

theorem undeclared_of_not_ident {code : Code} (hcode : ∀ c ∈ code, isIdentCell c = false) :
    Undeclared code := by
  intro k hk
  obtain ⟨hne, hword⟩ := declarationKeywords_ident k hk
  exact containsWord_eq_false hne hword hcode

/-- A cell that is no identifier cell keeps the words on its two sides apart. -/
theorem Undeclared.split {l r : Code} {c : Char} (hc : isIdentCell c = false) (hl : Undeclared l)
    (hr : Undeclared r) : Undeclared (l ++ c :: r) := by
  refine hl.append (apart_of_head rfl hc) ?_
  refine Undeclared.append (l := [c]) (apart_of_last rfl hc) ?_ hr
  exact undeclared_of_not_ident (by simpa using hc)

theorem undeclared_nil : Undeclared [] := undeclared_of_not_ident (by simp)

theorem undeclared_commas {ls : List Code} (h : ∀ l ∈ ls, Undeclared l) {l : Code}
    (hl : Undeclared l) : Undeclared (l ++ ls.flatMap (',' :: ·)) := by
  induction ls generalizing l with
  | nil => simpa using hl
  | cons m ms ih =>
    rw [List.flatMap_cons, List.cons_append]
    exact hl.split (by decide) (ih (fun n hn => h n (List.mem_cons_of_mem _ hn))
      (h m List.mem_cons_self))

theorem Undeclared.any_eq_false {code : Code} (h : Undeclared code) :
    (declarationKeywords.any fun k => containsWord k.toList code) = false := by
  rw [List.any_eq_false]
  exact fun k hk => by rw [h k hk]; simp

/-- No class is looked for in such code. -/
theorem Undeclared.wordPositions_class {code : Code} (h : Undeclared code) :
    wordPositions "class".toList code = [] := by
  have := h "class" (by decide)
  rw [containsWord] at this
  simpa using this

end ClassRefactor.Code
