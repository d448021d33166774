import ClassRefactor.Proofs.Code.Mask

/-!
# Where scans of code stop

Every scan answers with a position between its ends, and the cells on both sides of that position
tell why it stopped there. Such positions are seams: a run of blanks or of identifier cells ends
where the cells change, and delimiters are solid.
-/

namespace ClassRefactor.Code

/-- A statement about the cells of some code is decided cell by cell, not by running through all
characters. -/
instance (priority := high) decidableForallCell (code : Code) (p : Char → Prop) [DecidablePred p] :
    Decidable (∀ c ∈ code, p c) :=
  List.decidableBAll p code

instance (priority := high) decidableExistsCell (code : Code) (p : Char → Prop) [DecidablePred p] :
    Decidable (∃ c ∈ code, p c) :=
  List.decidableBEx p code

variable {code : Code}

@[simp] theorem length_window (code : Code) (start stop : Nat) :
    (code.window start stop).length = min (stop - start) (code.length - start) := by
  simp [window]

theorem length_window_of_le {start stop : Nat} (hstop : stop ≤ code.length) :
    (code.window start stop).length = stop - start := by
  rw [length_window]
  omega

theorem window_of_le {pos stop : Nat} (hle : stop ≤ pos) : code.window pos stop = [] := by
  simp [window, Nat.sub_eq_zero_of_le hle]

theorem window_length (code : Code) (p : Nat) : code.window p code.length = code.drop p := by
  rw [window, List.take_of_length_le (by simp)]

theorem window_append_window {start mid stop : Nat} (hmid : start ≤ mid) (hstop : mid ≤ stop) :
    code.window start mid ++ code.window mid stop = code.window start stop := by
  have hsplit : stop - start = mid - start + (stop - mid) := by omega
  rw [window, window, window, hsplit, List.take_add, List.drop_drop, Nat.add_sub_cancel' hmid]

theorem getElem?_window (code : Code) (start stop i : Nat) :
    (code.window start stop)[i]? = if i < stop - start then code[start + i]? else none := by
  simp [window, List.getElem?_take, List.getElem?_drop]

theorem getElem?_window_of_lt {start stop i : Nat} (h : start + i < stop) :
    (code.window start stop)[i]? = code[start + i]? := by
  rw [getElem?_window, if_pos (by omega)]

/-- A window is its first cell and the window after it. -/
theorem window_eq_cons {start stop : Nat} {c : Char} {rest : Code}
    (h : code.window start stop = c :: rest) :
    start < stop ∧ code[start]? = some c ∧ rest = code.window (start + 1) stop := by
  have hlt : start < stop := by
    have := congrArg List.length h
    simp only [length_window, List.length_cons] at this
    omega
  have hhead : code[start]? = some c := by
    rw [← Nat.add_zero start, ← getElem?_window_of_lt (by simpa using hlt), h]
    rfl
  refine ⟨hlt, hhead, ?_⟩
  have hdrop : code.drop start = c :: code.drop (start + 1) := by
    obtain ⟨hbound, hget⟩ := List.getElem?_eq_some_iff.mp hhead
    rw [List.drop_eq_getElem_cons hbound, hget]
  have hcount : stop - start = stop - (start + 1) + 1 := by omega
  rw [window, hdrop, hcount, List.take_succ_cons] at h
  exact (List.cons.inj h).2.symm

theorem window_eq_nil {start stop : Nat} (h : code.window start stop = [])
    (hstop : stop ≤ code.length) : stop ≤ start := by
  have := congrArg List.length h
  simp only [length_window, List.length_nil] at this
  omega

theorem leading_le (p : Char → Bool) (code : Code) : leading p code ≤ code.length :=
  (List.takeWhile_prefix p).length_le

/-- A run at the front ends where the code goes on with something else. -/
theorem leading_run {p : Char → Bool} {l r : Code} {c : Char} (hl : ∀ d ∈ l, p d = true)
    (hc : p c = false) : leading p (l ++ c :: r) = l.length := by
  rw [leading, List.takeWhile_append_of_pos hl, List.takeWhile_cons_of_neg (by simp [hc]),
    List.append_nil]

/-- The leading cells satisfy the predicate, and the first one after them does not. -/
theorem leading_spec (p : Char → Bool) (code : Code) :
    (∀ i, i < leading p code → ∃ c, code[i]? = some c ∧ p c = true) ∧
      ∀ c, code[leading p code]? = some c → p c = false := by
  induction code with
  | nil => simp [leading]
  | cons d rest ih =>
    by_cases hd : p d = true
    · have hlead : leading p (d :: rest) = leading p rest + 1 := by simp [leading, hd]
      rw [hlead]
      refine ⟨fun i hi => ?_, fun c hc => ?_⟩
      · cases i with
        | zero => exact ⟨d, rfl, hd⟩
        | succ i => exact ih.1 i (by omega)
      · exact ih.2 c (by simpa using hc)
    · have hlead : leading p (d :: rest) = 0 := by simp [leading, hd]
      rw [hlead]
      refine ⟨fun i hi => absurd hi (by omega), fun c hc => ?_⟩
      have : d = c := by simpa using hc
      rw [← this]
      simpa using hd

/-- A run from `start` on: where it ends, and what it holds. -/
theorem run_spec (p : Char → Bool) {start stop : Nat} (hle : start ≤ stop)
    (hstop : stop ≤ code.length) :
    start + leading p (code.window start stop) ≤ stop ∧
      (∀ i, start ≤ i → i < start + leading p (code.window start stop) →
        ∃ c, code[i]? = some c ∧ p c = true) ∧
      (start + leading p (code.window start stop) < stop →
        ∃ c, code[start + leading p (code.window start stop)]? = some c ∧ p c = false) := by
  have hlen := leading_le p (code.window start stop)
  rw [length_window_of_le hstop] at hlen
  obtain ⟨hin, hout⟩ := leading_spec p (code.window start stop)
  refine ⟨by omega, fun i hi hlt => ?_, fun hlt => ?_⟩
  · obtain ⟨c, hc, hp⟩ := hin (i - start) (by omega)
    rw [getElem?_window_of_lt (by omega), Nat.add_sub_cancel' hi] at hc
    exact ⟨c, hc, hp⟩
  · have hsome := List.getElem?_eq_getElem (l := code) (Nat.lt_of_lt_of_le hlt hstop)
    refine ⟨_, hsome, hout _ ?_⟩
    rw [getElem?_window_of_lt hlt, hsome]

theorem trailing_le (p : Char → Bool) (code : Code) : trailing p code ≤ code.length := by
  simpa [trailing] using leading_le p code.reverse

/-- A run that ends at `stop`: where it begins, and what it holds. -/
theorem runBack_spec (p : Char → Bool) {start stop : Nat} (hle : start ≤ stop)
    (hstop : stop ≤ code.length) :
    start ≤ stop - trailing p (code.window start stop) ∧
      (∀ i, stop - trailing p (code.window start stop) ≤ i → i < stop →
        ∃ c, code[i]? = some c ∧ p c = true) ∧
      (start < stop - trailing p (code.window start stop) →
        ∃ c, code[stop - trailing p (code.window start stop) - 1]? = some c ∧ p c = false) := by
  have hlen := trailing_le p (code.window start stop)
  have hwin : (code.window start stop).length = stop - start := length_window_of_le hstop
  rw [hwin] at hlen
  obtain ⟨hin, hout⟩ := leading_spec p (code.window start stop).reverse
  have hget : ∀ i, i < stop - start →
      (code.window start stop).reverse[i]? = code[stop - 1 - i]? := by
    intro i hi
    rw [List.getElem?_reverse (by omega), hwin, getElem?_window_of_lt (by omega)]
    congr 1
    omega
  refine ⟨by omega, fun i hi hlt => ?_, fun hlt => ?_⟩
  · obtain ⟨c, hc, hp⟩ := hin (stop - 1 - i) (by unfold trailing at hi hlen; omega)
    rw [hget _ (by omega)] at hc
    have : stop - 1 - (stop - 1 - i) = i := by omega
    rw [this] at hc
    exact ⟨c, hc, hp⟩
  · have hbound : stop - trailing p (code.window start stop) - 1 < code.length := by omega
    have hsome := List.getElem?_eq_getElem hbound
    refine ⟨_, hsome, hout _ ?_⟩
    rw [← trailing, hget _ (by omega)]
    have : stop - 1 - trailing p (code.window start stop) =
        stop - trailing p (code.window start stop) - 1 := by omega
    rw [this, hsome]

theorem seam_zero (code : Code) : Seam code 0 := ⟨Nat.zero_le _, fun h => absurd h (by omega)⟩

theorem seam_length (code : Code) : Seam code code.length :=
  ⟨Nat.le_refl _, fun _ c _ h => by simp at h⟩

/-- On both sides of a solid cell there is a seam. -/
theorem seam_of_solid {p : Nat} {c : Char} (h : code[p]? = some c) (hc : isSolid c = true) :
    Seam code p ∧ Seam code (p + 1) := by
  have hlt := (List.getElem?_eq_some_iff.mp h).1
  refine ⟨⟨by omega, fun _ d _ hd => ?_⟩, ⟨by omega, fun _ d hd _ => ?_⟩⟩
  · rw [h] at hd
    rwa [← Option.some.inj hd]
  · rw [Nat.add_sub_cancel, h] at hd
    rwa [← Option.some.inj hd]

/-- Where a predicate changes from one cell to the next there is a seam. -/
theorem seam_of_change (q : Char → Bool) {p : Nat} {c : Char} (hle : p ≤ code.length)
    (hprev : code[p - 1]? = some c) (hnext : ∀ d, code[p]? = some d → q d ≠ q c) :
    Seam code p := by
  refine ⟨hle, fun _ d hd hd' => ?_⟩
  rw [hprev] at hd
  obtain rfl := Option.some.inj hd
  exact absurd rfl (hnext _ hd')

/-- A run between two seams ends at a seam. -/
theorem seam_run (p : Char → Bool) {start stop : Nat} (hle : start ≤ stop)
    (hstart : Seam code start) (hstop : Seam code stop) :
    Seam code (start + leading p (code.window start stop)) := by
  obtain ⟨hbound, hin, hout⟩ := run_spec p hle hstop.le
  have hqle : start ≤ start + leading p (code.window start stop) := Nat.le_add_right ..
  generalize start + leading p (code.window start stop) = q at *
  rcases Nat.lt_or_ge start q with hlt | hge
  · rcases Nat.lt_or_ge q stop with hq | hq
    · obtain ⟨c, hc, hpc⟩ := hin (q - 1) (by omega) (by omega)
      obtain ⟨d, hd, hpd⟩ := hout hq
      refine seam_of_change p (Nat.le_trans hbound hstop.le) hc fun e he => ?_
      rw [hd] at he
      obtain rfl := Option.some.inj he
      simp [hpc, hpd]
    · have : q = stop := by omega
      rwa [this]
  · have : q = start := by omega
    rwa [this]

theorem seam_runBack (p : Char → Bool) {start stop : Nat} (hle : start ≤ stop)
    (hstart : Seam code start) (hstop : Seam code stop) :
    Seam code (stop - trailing p (code.window start stop)) := by
  obtain ⟨hbound, hin, hout⟩ := runBack_spec p hle hstop.le
  have hqle : stop - trailing p (code.window start stop) ≤ stop := Nat.sub_le ..
  generalize stop - trailing p (code.window start stop) = q at *
  rcases Nat.lt_or_ge q stop with hlt | hge
  · rcases Nat.lt_or_ge start q with hq | hq
    · obtain ⟨c, hc, hpc⟩ := hout hq
      obtain ⟨d, hd, hpd⟩ := hin q (Nat.le_refl _) hlt
      refine seam_of_change p (Nat.le_trans hqle hstop.le) hc fun e he => ?_
      rw [hd] at he
      obtain rfl := Option.some.inj he
      simp [hpc, hpd]
    · have : q = start := by omega
      rwa [this]
  · have : q = stop := by omega
    rwa [this]

end ClassRefactor.Code
