import ClassRefactor.Layout.Member
import ClassRefactor.Proofs.Code.Delimiter

/-!
# Parts of declarations lie in order

Attributes, modifiers, types and names are found one after another between the ends of a
declaration, each at seams of the code.
-/

namespace ClassRefactor

theorem isLayoutBlank_eq_false_of_isIdentCell {c : Char} (h : isIdentCell c = true) :
    isLayoutBlank c = false := by
  cases hb : isLayoutBlank c with
  | false => rfl
  | true =>
    simp only [isLayoutBlank, Bool.or_eq_true, beq_iff_eq] at hb
    rcases hb with (((hb | hb) | hb) | hb) | hb <;> subst hb <;> revert h <;> decide

namespace Code

variable {code : Code}

/-- A seam, or a position after a blank, which is a seam unless another blank follows. -/
def Loose (code : Code) (p : Nat) : Prop :=
  Seam code p ∨ ∃ b, code[p - 1]? = some b ∧ isLayoutBlank b = true

theorem Seam.loose {p : Nat} (h : Seam code p) : Loose code p := .inl h

theorem loose_of_blank {p : Nat} {b : Char} (h : code[p]? = some b) (hb : isLayoutBlank b = true) :
    Loose code (p + 1) :=
  .inr ⟨b, h, hb⟩

theorem Loose.seam {p : Nat} (h : Loose code p) {c : Char} (hc : code[p]? = some c)
    (hblank : isLayoutBlank c = false) : Seam code p := by
  rcases h with h | ⟨b, hb, hbb⟩
  · exact h
  · have hlt := (List.getElem?_eq_some_iff.mp hc).1
    refine seam_of_change isLayoutBlank (Nat.le_of_lt hlt) hb fun d hd => ?_
    rw [hc] at hd
    obtain rfl := Option.some.inj hd
    simp [hblank, hbb]

theorem attributesFrom_spec {start stop depth opened pos : Nat} {cells : Code}
    (hstop : Seam code stop) (hpos : pos ≤ stop) (hcells : code.window pos stop = cells)
    (hstart : start ≤ pos) (hloose : depth = 0 → Loose code pos)
    (hopened : depth ≠ 0 → start ≤ opened ∧ opened ≤ pos ∧ Seam code opened) :
    start ≤ attributesFrom depth opened pos cells ∧
      attributesFrom depth opened pos cells ≤ stop ∧
      Seam code (attributesFrom depth opened pos cells) := by
  induction cells generalizing depth opened pos with
  | nil =>
    have hend : pos = stop := Nat.le_antisymm hpos (window_eq_nil hcells hstop.le)
    subst hend
    by_cases hd : depth = 0
    · simpa [attributesFrom, hd] using ⟨hstart, hstop⟩
    · obtain ⟨h1, h2, h3⟩ := hopened hd
      simpa [attributesFrom, hd] using ⟨h1, h2, h3⟩
  | cons c rest ih =>
    obtain ⟨hlt, hc, hrest⟩ := window_eq_cons hcells
    cases depth with
    | zero =>
      have hloose := hloose rfl
      simp only [attributesFrom]
      split
      · rename_i hb
        have hb : c = '[' := by simpa using hb
        subst hb
        exact ih hlt hrest.symm (by omega) (by simp)
          fun _ => ⟨hstart, by omega, (seam_of_solid hc (by decide)).1⟩
      · split
        · rename_i hb
          exact ih hlt hrest.symm (by omega) (fun _ => loose_of_blank hc hb) (by simp)
        · rename_i hb
          exact ⟨hstart, hpos, hloose.seam hc (by simpa using hb)⟩
    | succ depth =>
      obtain ⟨h1, h2, h3⟩ := hopened (by simp)
      simp only [attributesFrom]
      split
      · exact ih hlt hrest.symm (by omega) (by simp) fun _ => ⟨h1, by omega, h3⟩
      · split
        · rename_i hb
          have hb : c = ']' := by simpa using hb
          subst hb
          exact ih hlt hrest.symm (by omega)
            (fun _ => (seam_of_solid hc (by decide)).2.loose) fun _ => ⟨h1, by omega, h3⟩
        · exact ih hlt hrest.symm (by omega) (by simp) fun _ => ⟨h1, by omega, h3⟩

theorem skipAttributes_spec {start stop : Nat} (hle : start ≤ stop) (hstart : Seam code start)
    (hstop : Seam code stop) :
    start ≤ code.skipAttributes start stop ∧ code.skipAttributes start stop ≤ stop ∧
      Seam code (code.skipAttributes start stop) :=
  attributesFrom_spec hstop hle rfl (Nat.le_refl _) (fun _ => hstart.loose) (by simp)

theorem modifiersFrom_spec {known : List String} {word : Code} {start stop wordStart pos : Nat}
    {cells : Code} (hstop : Seam code stop) (hpos : pos ≤ stop)
    (hcells : code.window pos stop = cells) (hstart : start ≤ pos)
    (hempty : word = [] → Loose code pos)
    (hword : word ≠ [] → start ≤ wordStart ∧ wordStart ≤ pos ∧ Seam code wordStart ∧
      ∃ d, code[pos - 1]? = some d ∧ isIdentCell d = true) :
    start ≤ (modifiersFrom known word wordStart pos cells).2 ∧
      (modifiersFrom known word wordStart pos cells).2 ≤ stop ∧
      Seam code (modifiersFrom known word wordStart pos cells).2 := by
  induction cells generalizing word wordStart pos with
  | nil =>
    have hend : pos = stop := Nat.le_antisymm hpos (window_eq_nil hcells hstop.le)
    subst hend
    unfold modifiersFrom
    split
    · exact ⟨hstart, hpos, hstop⟩
    · rename_i hne
      obtain ⟨h1, h2, h3, -⟩ := hword (by simpa using hne)
      split
      · exact ⟨h1, h2, h3⟩
      · exact ⟨hstart, hpos, hstop⟩
  | cons c rest ih =>
    obtain ⟨hlt, hc, hrest⟩ := window_eq_cons hcells
    unfold modifiersFrom
    split
    · rename_i hident
      refine ih hlt hrest.symm (by omega) (by simp) fun _ => ?_
      have hprev : ∃ d, code[pos + 1 - 1]? = some d ∧ isIdentCell d = true := ⟨c, hc, hident⟩
      cases hw : word with
      | nil =>
        have hseam := (hempty hw).seam hc (isLayoutBlank_eq_false_of_isIdentCell hident)
        simpa using ⟨hstart, hseam, hprev⟩
      | cons d word =>
        obtain ⟨h1, h2, h3, -⟩ := hword (by simp [hw])
        simpa using ⟨h1, by omega, h3, hprev⟩
    · rename_i hident
      split
      · rename_i hw
        have hw : word = [] := by simpa using hw
        split
        · rename_i hb
          exact ih hlt hrest.symm (by omega) (fun _ => loose_of_blank hc hb) (by simp)
        · rename_i hb
          exact ⟨hstart, hpos, (hempty hw).seam hc (by simpa using hb)⟩
      · rename_i hw
        obtain ⟨h1, h2, h3, d, hd, hdi⟩ := hword (by simpa using hw)
        split
        · exact ⟨h1, by omega, h3⟩
        · split
          · rename_i hb
            exact ih hlt hrest.symm (by omega) (fun _ => loose_of_blank hc hb) (by simp)
          · refine ⟨hstart, hpos, seam_of_change isIdentCell
              (Nat.le_trans hpos hstop.le) hd fun e he => ?_⟩
            rw [hc] at he
            obtain rfl := Option.some.inj he
            simp [hdi, hident]

theorem modifiers_spec (known : List String) {start stop : Nat} (hle : start ≤ stop)
    (hstart : Seam code start) (hstop : Seam code stop) :
    start ≤ (code.modifiers known start stop).2 ∧ (code.modifiers known start stop).2 ≤ stop ∧
      Seam code (code.modifiers known start stop).2 :=
  modifiersFrom_spec hstop hle rfl (Nat.le_refl _) (fun _ => hstart.loose) (by simp)

/-- A range whose ends are in order and at seams, so that it can be read from the source. -/
def Fits (code : Code) (r : Range) : Prop :=
  r.start ≤ r.stop ∧ Seam code r.start ∧ Seam code r.stop

theorem trimBlanks_spec {start stop : Nat} (hle : start ≤ stop) (hstart : Seam code start)
    (hstop : Seam code stop) :
    start ≤ code.trimBlanks start stop ∧ code.trimBlanks start stop ≤ stop ∧
      Seam code (code.trimBlanks start stop) :=
  ⟨(runBack_spec _ hle hstop.le).1, Nat.sub_le .., seam_runBack _ hle hstart hstop⟩

theorem skipBlanks_spec {start stop : Nat} (hle : start ≤ stop) (hstart : Seam code start)
    (hstop : Seam code stop) :
    start ≤ code.skipBlanks start stop ∧ code.skipBlanks start stop ≤ stop ∧
      Seam code (code.skipBlanks start stop) :=
  ⟨Nat.le_add_right .., (run_spec _ hle hstop.le).1, seam_run _ hle hstart hstop⟩

/-- A type and a name stand in this order, and neither is empty. -/
theorem typeAndName?_spec {start stop : Nat} {type name : Range} (hle : start ≤ stop)
    (hstart : Seam code start) (hstop : Seam code stop)
    (h : code.typeAndName? start stop = some (type, name)) :
    code.Fits type ∧ code.Fits name ∧ type.start = start ∧ start < type.stop ∧
      type.stop ≤ name.start ∧ name.start < name.stop ∧ name.stop ≤ stop := by
  obtain ⟨ha1, ha2, ha3⟩ := trimBlanks_spec hle hstart hstop
  simp only [typeAndName?] at h
  generalize code.trimBlanks start stop = nameStop at h ha1 ha2 ha3
  have hb1 := (runBack_spec isIdentCell ha1 ha3.le).1
  have hb2 := Nat.sub_le nameStop (trailing isIdentCell (code.window start nameStop))
  have hb3 := seam_runBack isIdentCell ha1 hstart ha3
  generalize nameStop - trailing isIdentCell (code.window start nameStop) = nameStart at *
  have hc1 := (runBack_spec isWhite hb1 hb3.le).1
  have hc2 := Nat.sub_le nameStart (trailing isWhite (code.window start nameStart))
  have hc3 := seam_runBack isWhite hb1 hstart hb3
  generalize nameStart - trailing isWhite (code.window start nameStart) = typeStop at *
  split at h
  · simp at h
  · rename_i hne
    simp only [Bool.or_eq_true, beq_iff_eq, not_or] at hne
    simp only [Option.some.injEq, Prod.mk.injEq] at h
    obtain ⟨rfl, rfl⟩ := h
    refine ⟨⟨hc1, hstart, hc3⟩, ⟨hb2, hb3, ha3⟩, rfl, ?_, hc2, ?_, ha2⟩ <;>
      simp only <;> omega

theorem window_drop {start stop : Nat} (n : Nat) :
    (code.window start stop).drop n = code.window (start + n) stop := by
  simp only [window, List.drop_take, List.drop_drop]
  congr 1
  omega

theorem trimmed_spec {start stop : Nat} (hle : start ≤ stop) (hstart : Seam code start)
    (hstop : Seam code stop) :
    start ≤ (code.trimmed start stop).start ∧ (code.trimmed start stop).stop ≤ stop ∧
      code.Fits (code.trimmed start stop) := by
  have hfront := (run_spec isWhite hle hstop.le).1
  have hfrontSeam := seam_run isWhite hle hstart hstop
  have hback := (runBack_spec isWhite hfront hstop.le).1
  have hbackSeam := seam_runBack isWhite hfront hfrontSeam hstop
  have hlen : (code.window start stop).length = stop - start := length_window_of_le hstop.le
  have hend : (code.trimmed start stop).stop = stop - trailing isWhite
      (code.window (start + leading isWhite (code.window start stop)) stop) := by
    simp only [trimmed, window_drop, hlen]
    omega
  refine ⟨Nat.le_add_right .., ?_, ?_, hfrontSeam, ?_⟩
  · rw [hend]
    exact Nat.sub_le ..
  · rw [hend]
    exact hback
  · rw [hend]
    exact hbackSeam

theorem withoutSemicolon_spec {start stop : Nat} (hlt : start < stop) (hstop : Seam code stop) :
    start ≤ code.withoutSemicolon stop ∧ code.withoutSemicolon stop ≤ stop ∧
      Seam code (code.withoutSemicolon stop) := by
  unfold withoutSemicolon
  split
  · rename_i hsemi
    exact ⟨by omega, Nat.sub_le .., (seam_of_solid (by simpa using hsemi) (by decide)).1⟩
  · exact ⟨Nat.le_of_lt hlt, Nat.le_refl _, hstop⟩

end Code

end ClassRefactor
