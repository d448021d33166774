import ClassRefactor.Proofs.Code.Sane
import ClassRefactor.Proofs.Layout.Lead

/-!
# The mask around an exchanged lead

A scan that reaches the lead of a member in code leaves it in code again. So exchanging a lead that
is all code exchanges just as much of the mask.
-/

namespace ClassRefactor

/-- A blank at a seam of the mask shows as a blank: within a literal, the mask has no seam before a
blank. -/
theorem Text.isLayoutBlank_of_seam {t : Text} {p : Nat} {c d : Char}
    (hseam : Code.Seam t.mask.cells p) (hc : t.cells[p]? = some c)
    (hblank : isLayoutBlank c = true) (hd : t.mask.cells[p]? = some d) :
    isLayoutBlank d = true := by
  obtain ⟨front, rest, rfl, rfl⟩ := Text.isBoundary_iff.mp (Text.isBoundary_of_seam hseam)
  cases rest with
  | nil => simp at hc
  | cons e rest =>
    obtain ⟨n, hn, -⟩ := Text.exists_cells_cons e rest
    obtain rfl : e = c := by simpa [Text.cells_append, hn] using hc
    have hmask : Text.mask (front ++ e :: rest) = Scan.start.mask front (e :: rest) ++
        (Scan.start.after front (e :: rest)).mask (e :: rest) [] := by
      rw [Text.mask_eq_maskWith, Text.modes_eq, Scan.maskWith_modes, Scan.mask_append,
        List.append_nil]
    have hlen : (Text.cells (Scan.start.mask front (e :: rest))).length = front.size := by simp
    have hcell := (Scan.start.after front (e :: rest)).head?_mask e rest []
    rw [List.append_nil, List.head?_eq_getElem?] at hcell
    have hshown := hd
    rw [hmask, Text.cells_append, List.getElem?_append_right (Nat.le_of_eq hlen), hlen,
      Nat.sub_self, hcell] at hshown
    cases hmode : ((Scan.start.after front (e :: rest)).next e rest).mode with
    | code =>
      rw [hmode] at hshown
      exact Option.some.inj hshown ▸ hblank
    | comment =>
      rw [hmode, Text.maskCell] at hshown
      split at hshown
      · exact Option.some.inj hshown ▸ hblank
      · exact Option.some.inj hshown ▸ rfl
    | literal =>
      rw [hmode] at hshown
      -- The cell before shows a quote too, so there is no seam.
      have hlast := Scan.getLast?_mask_of_literal
        ((Scan.sane_start.after front (e :: rest)).literal_of_blank hblank hmode)
      rw [List.getLast?_eq_getElem?, hlen] at hlast
      have hlt := (List.getElem?_eq_some_iff.mp hlast).1
      have hprev : (Text.mask (front ++ e :: rest)).cells[front.size - 1]? = some '"' := by
        rw [hmask, Text.cells_append, List.getElem?_append_left hlt]
        exact hlast
      rw [← Option.some.inj hshown] at hd
      exact absurd (hseam.2 (by omega) '"' hprev hd) (by decide)

theorem Scan.mask_calm {t t' : Text} (ht : Calm t) (ht' : Calm t') (s : Scan) (front : Text) :
    s.mask front t = s.mask front t' := by
  induction front generalizing s with
  | nil => rfl
  | cons c front ih => rw [Scan.mask, Scan.mask, s.next_calm ht ht' c front, ih]

theorem head?_append_quiet {front rest : Text} (hfront : ∀ c ∈ front, isQuiet c = true)
    (hquote : rest.head? ≠ some '"') (hdollar : rest.head? ≠ some '$') :
    (front ++ rest).head? ≠ some '"' ∧ (front ++ rest).head? ≠ some '$' := by
  cases front with
  | nil => exact ⟨hquote, hdollar⟩
  | cons d front =>
    have hd := hfront d (by simp)
    simp only [isQuiet, Bool.and_eq_true, bne_iff_ne] at hd
    simp [hd]

theorem Scan.InCode.mask_quiet {s : Scan} (h : s.InCode) {front rest : Text}
    (hfront : ∀ c ∈ front, isQuiet c = true) (hquote : rest.head? ≠ some '"')
    (hdollar : rest.head? ≠ some '$') : s.mask front rest = front := by
  induction front generalizing s with
  | nil => rfl
  | cons c front ih =>
    have hrest := fun d hd => hfront d (List.mem_cons_of_mem _ hd)
    obtain ⟨hq, hd⟩ := head?_append_quiet hrest hquote hdollar
    obtain ⟨hmode, hnext⟩ := h.next (hfront c List.mem_cons_self) hq hd
    rw [Scan.mask, hmode, ih hnext hrest]
    rfl

/-- A name is scanned in the same way wherever in code it is reached. -/
theorem Scan.InCode.next_name {s s' : Scan} (h : s.InCode) (h' : s'.InCode) {c : Char}
    (hc : Code.isNameCell c = true) (rest : Text) : s.next c rest = s'.next c rest := by
  have hblank := Code.isLayoutBlank_of_isNameCell hc
  have hne : (c == '#') = false ∧ (c == '/') = false := by
    constructor <;> rw [beq_eq_false_iff_ne] <;> rintro rfl <;> exact absurd hc (by decide)
  obtain ⟨place, held, mode⟩ := s
  obtain ⟨place', held', mode'⟩ := s'
  obtain ⟨rfl, fresh, rfl⟩ := h
  obtain ⟨rfl, fresh', rfl⟩ := h'
  simp [Scan.next, Place.step, Place.stepCode, hne, hblank]

/-- In code, a mark that would begin a verbatim string is none. -/
theorem Scan.InCode.not_verbatim {s : Scan} (h : s.InCode) {rest : Text}
    (hmode : (s.next '@' rest).mode = .code) : rest.head? ≠ some '"' := by
  intro hquote
  obtain ⟨place, held, mode⟩ := s
  obtain ⟨rfl, fresh, rfl⟩ := h
  simp [Scan.next, Place.step, Place.stepCode, verbatimMark_cons, hquote] at hmode

theorem not_opens_of_isNameCell {c : Char} (hc : Code.isNameCell c = true) :
    c ≠ '/' ∧ c ≠ '*' ∧ c ≠ '"' ∧ c ≠ '$' := by
  refine ⟨?_, ?_, ?_, ?_⟩ <;> rintro rfl <;> exact absurd hc (by decide)

/-- Quiet text before a name changes nothing for what precedes it. -/
theorem calm_quiet_name {front rest : Text} {c : Char} (hne : front ≠ [])
    (hfront : ∀ d ∈ front, isQuiet d = true) (hstar : front.head? ≠ some '*')
    (hc : Code.isNameCell c = true) : Calm (front ++ c :: rest) := by
  obtain ⟨-, -, hquote, hdollar⟩ := not_opens_of_isNameCell hc
  obtain ⟨d, front, rfl⟩ := List.exists_cons_of_ne_nil hne
  have hd := hfront d List.mem_cons_self
  simp only [isQuiet, Bool.and_eq_true, bne_iff_ne] at hd
  have hrest : (c :: rest).head? ≠ some '"' ∧ (c :: rest).head? ≠ some '$' := by
    simp [hquote, hdollar]
  have hnext := head?_append_quiet (fun e he => hfront e (List.mem_cons_of_mem _ he))
    hrest.1 hrest.2
  exact ⟨⟨by simpa using hd.1.1.2, by simpa using hd.2, fun _ => hnext.1⟩,
    by simpa using hd.1.1.1.1, by simpa using hstar⟩

theorem Scan.InCode.after_quiet {s : Scan} (h : s.InCode) {front rest : Text}
    (hfront : ∀ c ∈ front, isQuiet c = true) (hquote : rest.head? ≠ some '"')
    (hdollar : rest.head? ≠ some '$') : (s.after front rest).InCode :=
  (h.quiet hfront hquote hdollar).2

/-- Quiet text after a cell that shows no literal is scanned in code, if it shows at all. -/
theorem Scan.inCode_of_quiet {front : Text} {c : Char} {rest : Text}
    (hlast : ∀ d, (Text.cells (Scan.start.mask front (c :: rest))).getLast? = some d → d ≠ '"')
    (hc : isQuiet c = true) (hquote : rest.head? ≠ some '"') (hdollar : rest.head? ≠ some '$')
    (hhead : isLayoutBlank (Text.maskCell c
      ((Scan.start.after front (c :: rest)).next c rest).mode) = false) :
    (Scan.start.after front (c :: rest)).InCode := by
  have hsane := Scan.sane_start.after front (c :: rest)
  refine @Scan.Sane.inCode _ hsane c rest (code_of_maskCell rfl hhead fun hd => ?_).1
  have hmode : ((Scan.start.after front (c :: rest)).next c rest).mode = .literal := by
    simp only [isQuiet, Bool.and_eq_true, bne_iff_ne] at hc
    generalize ((Scan.start.after front (c :: rest)).next c rest).mode = mode at *
    cases mode with
    | literal => rfl
    | code => exact absurd hd hc.1.1.2
    | comment =>
      simp only [Text.maskCell] at hd
      split at hd
      · exact absurd hd hc.1.1.2
      · exact absurd hd (by decide)
  exact hlast '"' (Scan.getLast?_mask_of_literal
    (hsane.literal_of_quiet hc hquote hdollar hmode)) rfl

/-- A text that is made of what precedes the lead of a member, of modifiers, a quiet type, and of
what begins with the name. -/
structure LeadMask (tA tB tR tY : Text) (s₀ s₁ s₂ : Scan) : Prop where
  first : Scan.start.after tA (tB ++ (tR ++ tY)) = s₀
  second : s₀.after tB (tR ++ tY) = s₁
  third : s₁.after tR tY = s₂
  last : ∀ d, (Text.cells (Scan.start.mask tA (tB ++ (tR ++ tY)))).getLast? = some d → d ≠ '"'
  modifiers : ∀ d ∈ Text.cells (s₀.mask tB (tR ++ tY)),
    isIdentCell d = true ∨ isLayoutBlank d = true
  modifiers_head : ∀ d, (Text.cells (s₀.mask tB (tR ++ tY))).head? = some d →
    isLayoutBlank d = false
  quiet : ∀ c ∈ tR, isQuiet c = true
  star : tR.head? ≠ some '*'
  head : ∃ d, (Text.cells (s₁.mask tR tY)).head? = some d ∧ isLayoutBlank d = false
  name : ∃ d, (Text.cells (s₂.mask tY [])).head? = some d ∧ Code.isNameCell d = true

namespace LeadMask

variable {tA tB tR tY : Text} {s₀ s₁ s₂ : Scan} (h : LeadMask tA tB tR tY s₀ s₁ s₂)
include h

theorem sane : s₀.Sane ∧ s₁.Sane ∧ s₂.Sane := by
  have h₀ : s₀.Sane := h.first ▸ Scan.sane_start.after ..
  have h₁ : s₁.Sane := h.second ▸ h₀.after ..
  exact ⟨h₀, h₁, h.third ▸ h₁.after ..⟩

theorem exists_name : ∃ c rest, tY = c :: rest ∧ Code.isNameCell c = true := by
  obtain ⟨d, hd, hname⟩ := h.name
  cases hY : tY with
  | nil =>
    rw [hY] at hd
    cases hd
  | cons c rest =>
    rw [hY, Scan.head?_mask] at hd
    obtain ⟨-, -, hquote, -⟩ := not_opens_of_isNameCell hname
    obtain ⟨-, rfl⟩ := code_of_maskCell (Option.some.inj hd)
      (Code.isLayoutBlank_of_isNameCell hname) hquote
    exact ⟨c, rest, rfl, hname⟩

theorem name_head : tY.head? ≠ some '"' ∧ tY.head? ≠ some '$' := by
  obtain ⟨c, rest, rfl, hc⟩ := h.exists_name
  obtain ⟨-, -, hquote, hdollar⟩ := not_opens_of_isNameCell hc
  simp [hquote, hdollar]

/-- The type is reached in code. -/
theorem inCode_type : s₁.InCode := by
  obtain ⟨d, hd, hblank⟩ := h.head
  cases hR : tR with
  | nil =>
    rw [hR] at hd
    cases hd
  | cons c tR' =>
    have hquiet := h.quiet
    rw [hR] at hd hquiet
    rw [Scan.head?_mask] at hd
    obtain ⟨hquote, hdollar⟩ := head?_append_quiet
      (fun e he => hquiet e (List.mem_cons_of_mem _ he)) h.name_head.1 h.name_head.2
    have hs : Scan.start.after (tA ++ tB) (c :: (tR' ++ tY)) = s₁ := by
      rw [Scan.after_append, ← List.cons_append, ← hR, h.first, h.second]
    rw [← hs]
    refine Scan.inCode_of_quiet (fun e he => ?_) (hquiet c List.mem_cons_self)
      hquote hdollar ?_
    · rw [← List.cons_append, ← hR, Scan.mask_append, h.first, Text.cells_append] at he
      rcases List.eq_nil_or_concat tB with rfl | ⟨init, f, rfl⟩
      · rw [Scan.mask, Text.cells_nil, List.append_nil] at he
        exact h.last e he
      · rw [List.getLast?_append_of_ne_nil _ (by
          intro hnil
          have := Scan.getLast?_mask s₀ init f (tR ++ tY)
          rw [List.concat_eq_append] at hnil
          rw [hnil] at this
          cases this)] at he
        rcases h.modifiers e (List.mem_of_getLast? he) with hident | hblank <;> rintro rfl
        · exact absurd hident (by decide)
        · exact absurd hblank (by decide)
    · rw [hs]
      exact Option.some.inj hd ▸ hblank

/-- The type is its own mask. -/
theorem mask_type : s₁.mask tR tY = tR :=
  h.inCode_type.mask_quiet h.quiet h.name_head.1 h.name_head.2

/-- The lead is reached in code, and what precedes it is scanned without regard to it. -/
theorem inCode_lead : s₀.InCode ∧ Calm (tB ++ (tR ++ tY)) := by
  obtain ⟨c, rest, hY, hc⟩ := h.exists_name
  cases hB : tB with
  | nil =>
    have hsecond : s₁ = s₀ := by rw [← h.second, hB, Scan.after]
    have hne : tR ≠ [] := by
      rintro rfl
      obtain ⟨d, hd, -⟩ := h.head
      cases hd
    refine ⟨hsecond ▸ h.inCode_type, ?_⟩
    rw [List.nil_append, hY]
    exact calm_quiet_name hne h.quiet h.star hc
  | cons b tB' =>
    have hhead := Scan.head?_mask s₀ b tB' (tR ++ tY)
    have hmodifiers := h.modifiers
    rw [hB] at hmodifiers
    have hblank := h.modifiers_head _ (by rw [hB]; exact hhead)
    have hident := (hmodifiers _ (List.mem_of_mem_head? hhead)).resolve_right (by simp [hblank])
    have hname : Code.isNameCell (Text.maskCell b (s₀.next b (tB' ++ (tR ++ tY))).mode) = true := by
      simp [Code.isNameCell, hident]
    obtain ⟨-, -, hquote, -⟩ := not_opens_of_isNameCell hname
    obtain ⟨hmode, heq⟩ := code_of_maskCell rfl hblank hquote
    rw [← heq] at hname
    obtain ⟨hslash, hstar, hquote, hdollar⟩ := not_opens_of_isNameCell hname
    have hcode := h.sane.1.inCode hmode
    refine ⟨hcode, ⟨by simpa using hquote, by simpa using hdollar, fun hat => ?_⟩,
      by simpa using hslash, by simpa using hstar⟩
    obtain rfl : b = '@' := by simpa using hat
    exact hcode.not_verbatim hmode

section Exchanged

variable {tL : Text} (hne : tL ≠ []) (hquiet : ∀ c ∈ tL, isQuiet c = true)
  (hstar : tL.head? ≠ some '*')
include hne hquiet hstar

/-- Quiet text in the place of the lead is reached where the lead was, and from the name on all is
scanned as before. -/
theorem exchanged : Calm (tL ++ tY) ∧ Scan.start.after tA (tL ++ tY) = s₀ ∧
    ∃ c rest, tY = c :: rest ∧ (s₀.after tL tY).next c rest = s₂.next c rest := by
  obtain ⟨c, rest, hY, hc⟩ := h.exists_name
  obtain ⟨hcode, hcalm⟩ := h.inCode_lead
  have hcalm' : Calm (tL ++ tY) := by
    rw [hY]
    exact calm_quiet_name hne hquiet hstar hc
  refine ⟨hcalm', ((Scan.modes_calm hcalm' hcalm Scan.start tA).2).trans h.first, c, rest, hY, ?_⟩
  exact (hcode.after_quiet hquiet h.name_head.1 h.name_head.2).next_name
    (h.third ▸ h.inCode_type.after_quiet h.quiet h.name_head.1 h.name_head.2) hc rest

/-- Exchanging the lead for quiet text exchanges as much of the mask. -/
theorem mask_exchanged : Text.mask (tA ++ (tL ++ tY)) =
    Scan.start.mask tA (tB ++ (tR ++ tY)) ++ (tL ++ s₂.mask tY []) := by
  have hwhole : Text.mask (tA ++ (tL ++ tY)) = Scan.start.mask (tA ++ (tL ++ tY)) [] :=
    Scan.start.maskWith_modes _
  obtain ⟨hcode, hcalm⟩ := h.inCode_lead
  obtain ⟨hcalm', hafter, c, rest, hY, hnext⟩ := h.exchanged hne hquiet hstar
  have hname : (s₀.after tL tY).mask tY [] = s₂.mask tY [] := by
    generalize s₀.after tL tY = s at hnext
    rw [hY, Scan.mask, Scan.mask, List.append_nil, hnext]
  rw [hwhole, Scan.mask_append, Scan.mask_append]
  simp only [List.append_nil]
  rw [hafter, Scan.mask_calm hcalm' hcalm, hcode.mask_quiet hquiet h.name_head.1 h.name_head.2,
    hname]

/-- Exchanging the lead for quiet text exchanges as many modes for those of code. -/
theorem modes_exchanged : Text.modes (tA ++ (tL ++ tY)) =
    (Text.modes (tA ++ (tB ++ (tR ++ tY)))).take tA.length ++
      (List.replicate tL.length .code ++ s₂.modes tY) := by
  obtain ⟨hcode, hcalm⟩ := h.inCode_lead
  obtain ⟨hcalm', hafter, c, rest, hY, hnext⟩ := h.exchanged hne hquiet hstar
  have hname : (s₀.after tL tY).modes tY = s₂.modes tY := by
    generalize s₀.after tL tY = s at hnext
    rw [hY, Scan.modes_cons, Scan.modes_cons, hnext]
  rw [Text.modes_eq, Text.modes_eq, Scan.modes_append, Scan.modes_append _ tL, hafter,
    (Scan.modes_calm hcalm' hcalm Scan.start tA).1,
    (hcode.quiet hquiet h.name_head.1 h.name_head.2).1, hname]

end Exchanged

end LeadMask

end ClassRefactor
