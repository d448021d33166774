import ClassRefactor.Proofs.Convert.Lead
import ClassRefactor.Proofs.Layout.Modifier

/-!
# A method with another lead

A method is made of its attributes, its modifiers, its return type and what begins with its name.
It stays a method, and what begins with its name keeps its layout, when another lead is printed.
-/

namespace ClassRefactor.Code

/-! Attributes. -/

/-- Attributes are passed over for good, or not at all. -/
theorem attributesFrom_cases (depth opened pos : Nat) (cells : Code) :
    (depth ≠ 0 ∧ attributesFrom depth opened pos cells = opened) ∨
      pos + min depth 1 ≤ attributesFrom depth opened pos cells := by
  induction cells generalizing depth opened pos with
  | nil =>
    cases depth with
    | zero => exact .inr (by simp [attributesFrom])
    | succ depth => exact .inl ⟨Nat.succ_ne_zero _, rfl⟩
  | cons c rest ih =>
    cases depth with
    | zero =>
      simp only [attributesFrom]
      split
      · rcases ih 1 pos (pos + 1) with ⟨-, h⟩ | h
        · exact .inr (by omega)
        · exact .inr (by omega)
      · split
        · rcases ih 0 opened (pos + 1) with ⟨h, -⟩ | h
          · exact absurd rfl h
          · exact .inr (by omega)
        · exact .inr (by omega)
    | succ depth =>
      have hnext : ∀ d, (d ≠ 0 ∧ attributesFrom d opened (pos + 1) rest = opened) ∨
            pos + 1 + min d 1 ≤ attributesFrom d opened (pos + 1) rest →
          (depth + 1 ≠ 0 ∧ attributesFrom d opened (pos + 1) rest = opened) ∨
            pos + min (depth + 1) 1 ≤ attributesFrom d opened (pos + 1) rest := by
        rintro d (⟨-, h⟩ | h)
        · exact .inl ⟨Nat.succ_ne_zero _, h⟩
        · exact .inr (by omega)
      simp only [attributesFrom]
      split
      · exact hnext _ (ih ..)
      · split
        · exact hnext _ (ih ..)
        · exact hnext _ (ih ..)

/-- Attributes end in the same place whatever declaration follows them. -/
theorem attributesFrom_exchanged {depth opened pos : Nat} {l rest rest' : Code}
    (h : attributesFrom depth opened pos (l ++ rest) = pos + l.length)
    (hopened : depth ≠ 0 → opened < pos)
    (hrest : ∃ d, rest'.head? = some d ∧ isLayoutBlank d = false ∧ d ≠ '[') :
    attributesFrom depth opened pos (l ++ rest') = pos + l.length := by
  induction l generalizing depth opened pos with
  | nil =>
    cases depth with
    | zero =>
      obtain ⟨d, hd, hblank, hne⟩ := hrest
      obtain ⟨tail, rfl⟩ := List.head?_eq_some_iff.mp hd
      simp [attributesFrom, hblank, hne]
    | succ depth =>
      have hlt := hopened (Nat.succ_ne_zero _)
      rcases attributesFrom_cases (depth + 1) opened pos ([] ++ rest) with ⟨-, heq⟩ | hle
      · rw [heq, List.length_nil] at h
        omega
      · rw [h, List.length_nil] at hle
        omega
  | cons c l ih =>
    have hlen : pos + (c :: l).length = pos + 1 + l.length := by rw [List.length_cons]; omega
    rw [hlen] at h ⊢
    cases depth with
    | zero =>
      simp only [List.cons_append, attributesFrom] at h ⊢
      split at h
      · rename_i hc
        rw [if_pos hc]
        exact ih h fun _ => Nat.lt_succ_self pos
      · rename_i hc
        rw [if_neg hc]
        split at h
        · rename_i hblank
          rw [if_pos hblank]
          exact ih h fun hne => absurd rfl hne
        · omega
    | succ depth =>
      have hlt := hopened (Nat.succ_ne_zero _)
      simp only [List.cons_append, attributesFrom] at h ⊢
      split at h
      · rename_i hc
        rw [if_pos hc]
        exact ih h fun _ => Nat.lt_succ_of_lt hlt
      · rename_i hc
        rw [if_neg hc]
        split at h
        · rename_i hclose
          rw [if_pos hclose]
          exact ih h fun _ => Nat.lt_succ_of_lt hlt
        · rename_i hclose
          rw [if_neg hclose]
          exact ih h fun _ => Nat.lt_succ_of_lt hlt

/-- A declaration begins with no blank. -/
theorem attributesFrom_nonblank {code : Code} {depth opened pos stop : Nat} {cells : Code}
    (hcells : code.window pos stop = cells) (hstop : stop ≤ code.length)
    (hopen : depth ≠ 0 → code[opened]? = some '[')
    (hlt : attributesFrom depth opened pos cells < stop) :
    ∃ d, code[attributesFrom depth opened pos cells]? = some d ∧ isLayoutBlank d = false := by
  induction cells generalizing depth opened pos with
  | nil =>
    have hle := window_eq_nil hcells hstop
    rw [attributesFrom] at hlt ⊢
    split at hlt
    · omega
    · rename_i hdepth
      rw [if_neg hdepth]
      exact ⟨'[', hopen (by simpa using hdepth), by decide⟩
  | cons c rest ih =>
    obtain ⟨-, hc, hrest⟩ := window_eq_cons hcells
    cases depth with
    | zero =>
      simp only [attributesFrom] at hlt ⊢
      split at hlt
      · rename_i hbracket
        rw [if_pos hbracket]
        exact ih hrest.symm (fun _ => by rw [hc, beq_iff_eq.mp hbracket]) hlt
      · rename_i hbracket
        rw [if_neg hbracket]
        split at hlt
        · rename_i hblank
          rw [if_pos hblank]
          exact ih hrest.symm (fun hne => absurd rfl hne) hlt
        · rename_i hblank
          rw [if_neg hblank]
          exact ⟨c, hc, by simpa using hblank⟩
    | succ depth =>
      have hopened := hopen (Nat.succ_ne_zero depth)
      simp only [attributesFrom] at hlt ⊢
      split at hlt
      · rename_i hbracket
        rw [if_pos hbracket]
        exact ih hrest.symm (fun _ => hopened) hlt
      · rename_i hbracket
        rw [if_neg hbracket]
        split at hlt
        · rename_i hclose
          rw [if_pos hclose]
          exact ih hrest.symm (fun _ => hopened) hlt
        · rename_i hclose
          rw [if_neg hclose]
          exact ih hrest.symm (fun _ => hopened) hlt

/-! The parts of a method. -/

/-- A method in parts: its attributes `u`, its modifiers `b`, its type `f`, and `y`, which begins
with its name. -/
structure MethodParts (u b f y : Code) (c : CallableLayout) : Prop where
  attributes : Code.skipAttributes (u ++ (b ++ f) ++ y) 0 (u ++ (b ++ f) ++ y).length = u.length
  front : FrontBlanks (b ++ f) b f
  head : ∃ d, (b ++ f).head? = some d ∧ isLayoutBlank d = false
  typed : ∃ d ∈ f, isWhite d = false
  undeclared : Undeclared (b ++ f)
  last : ∀ d, (b ++ f).getLast? = some d → isNameCell d = false ∧ d ≠ '~'
  named : y.Named c

/-- Every method falls into such parts. -/
theorem exists_methodParts {x className : Code} {k : CallableLayout}
    (h : (x.memberLayout className ⟨0, x.length⟩).shape = .method k) :
    ∃ u b f y c, x = u ++ (b ++ f) ++ y ∧ MethodParts u b f y c ∧
      k = (c.shift (u ++ (b ++ f)).length).withLead ⟨u.length, (u ++ (b ++ f)).length⟩
        k.modifiers ⟨u.length + b.length, (u ++ (b ++ f)).length⟩ ∧
      ∀ m ∈ k.modifiers, m ∈ memberModifiers := by
  generalize hstart : x.skipAttributes 0 x.length = start
  obtain ⟨l, y, c, rfl, hlt, hnamed, hundeclared, hlast, hk, hblack⟩ :=
    exists_named_of_method hstart h
  have hlen : (l.take start).length = start := List.length_take_of_le (by omega)
  obtain ⟨d, hd, hsolid⟩ : ∃ d, (l ++ y)[start]? = some d ∧ isLayoutBlank d = false := by
    have hinside : (l ++ y).skipAttributes 0 (l ++ y).length < (l ++ y).length := by
      rw [hstart, List.length_append]
      omega
    rw [← hstart]
    exact attributesFrom_nonblank rfl (Nat.le_refl _) (by simp) hinside
  rw [List.getElem?_append_left hlt] at hd
  have hhead : (l.drop start).head? = some d := by rw [List.head?_drop, hd]
  obtain ⟨b, f, hparts, hpos, hknown⟩ :=
    @modifiersFrom_parts memberModifiers [] start start (l.drop start) (by simp) (by simp)
  rw [List.reverse_nil, List.nil_append] at hparts
  rw [List.length_nil, Nat.add_zero] at hpos
  have hsplit : l.take start ++ (b ++ f) = l := by rw [← hparts.1, List.take_append_drop]
  have hwindow : ∀ i, start ≤ i → (l ++ y).window i l.length = l.drop i := by
    intro i hi
    rw [window_append_left (Nat.le_refl _), window_length]
  have hskip : (l ++ y).skipBlanks start l.length = start := by
    obtain ⟨tail, htail⟩ := List.head?_eq_some_iff.mp hhead
    rw [skipBlanks, hwindow start (Nat.le_refl _), htail, leading_cons, hsolid]
    rfl
  rw [hskip] at hk
  refine ⟨l.take start, b, f, y, c, by rw [hsplit], ⟨?_, ?_, ?_, ?_, ?_, ?_, hnamed⟩, ?_, ?_⟩
  · rw [hsplit, hlen, hstart]
  · rw [← hparts.1]
    exact hparts
  · rw [← hparts.1]
    exact ⟨d, hhead, hsolid⟩
  · rw [hpos, isWhiteBetween, hwindow _ (Nat.le_add_right ..), ← List.drop_drop, hparts.1,
      List.drop_left, List.all_eq_false] at hblack
    simpa using hblack
  · rw [← hparts.1]
    exact hundeclared
  · rw [← hparts.1, getLast?_drop_eq hlt]
    exact hlast
  · rw [hsplit, hlen, hk, hpos]
    rfl
  · rw [hk]
    exact hknown

section

variable {u b f y : Code} {c : CallableLayout} (h : MethodParts u b f y c)
include h

/-- Modifiers and a type whose delimiters close can stand before a name. -/
theorem MethodParts.lead (hclosed : stackAfter [] f = some [])
    (hhead : ∀ d, f.head? = some d → d ≠ '=' ∧ d ≠ '[') : Lead (b ++ f) where
  closed := by
    have hinert : ∀ d ∈ b, isInert d = true := by
      intro d hd
      rcases h.front.2.1 d hd with hident | hblank
      · exact isInert_of_isIdentCell hident
      · exact isInert_of_isLayoutBlank hblank
    rw [stackAfter_append, stackAfter_of_isInert hinert, Option.bind_some, hclosed]
  undeclared := h.undeclared
  head := by
    obtain ⟨d, hd, hsolid⟩ := h.head
    refine ⟨d, hd, hsolid, ?_⟩
    cases hb : b with
    | nil =>
      rw [hb] at hd
      exact hhead d hd
    | cons e b' =>
      rw [hb] at hd
      obtain rfl := Option.some.inj hd
      have hident := (h.front.2.1 e (by simp [hb])).resolve_right (by simp [hsolid])
      constructor <;> rintro rfl <;> exact absurd hident (by decide)
  last := h.last

/-- With another lead printed before its name, the method keeps what begins with the name. -/
theorem MethodParts.exchanged {ms : List String} (hms : ∀ m ∈ ms, m ∈ memberModifiers)
    {t : TypeRef} (ht : t.WellFormed) (className : Code) :
    ∃ signature, u.length ≤ signature ∧
      (u ++ printedLead ms t ++ y).memberLayout className
          ⟨0, (u ++ printedLead ms t ++ y).length⟩ =
        { range := ⟨0, (u ++ printedLead ms t ++ y).length⟩
          signature := ⟨u.length, signature⟩
          shape := .method ((c.shift (u ++ printedLead ms t).length).withLead
            ⟨u.length, (u ++ printedLead ms t).length⟩ ms
            ⟨u.length + (renderModifiers ms).toList.length, (u ++ printedLead ms t).length⟩) } := by
  have hlead := lead_printedLead hms ht
  obtain ⟨d, hd, hsolid, hequals, hbracket⟩ := hlead.head
  have hne : printedLead ms t ≠ [] := by
    intro hnil
    rw [hnil] at hd
    cases hd
  have hdrop : (u ++ printedLead ms t).drop u.length = printedLead ms t := List.drop_left
  have hmods := modifiersFrom_printedLead hms ht u.length u.length
  have hstart : (u ++ printedLead ms t ++ y).skipAttributes 0
      (u ++ printedLead ms t ++ y).length = u.length := by
    have hold := h.attributes
    rw [skipAttributes, window_length, List.drop_zero, List.append_assoc, ← Nat.zero_add u.length]
      at hold ⊢
    exact attributesFrom_exchanged hold (fun hne => absurd rfl hne)
      ⟨d, by rw [List.head?_append_of_ne_nil _ hne, hd], hsolid, hbracket⟩
  have hlast : ∀ e, (u ++ printedLead ms t).getLast? = some e → isNameCell e = false ∧ e ≠ '~' := by
    intro e he
    rw [List.getLast?_append_of_ne_nil _ hne] at he
    exact hlead.last e he
  have hskip : (u ++ printedLead ms t ++ y).skipBlanks u.length (u ++ printedLead ms t).length =
      u.length := by
    obtain ⟨tail, htail⟩ := List.head?_eq_some_iff.mp hd
    rw [skipBlanks, window_append_left (Nat.le_refl _), window_length, hdrop, htail, leading_cons,
      hsolid]
    rfl
  have hblack : (u ++ printedLead ms t ++ y).isWhiteBetween
      (u.length + (renderModifiers ms).toList.length) (u ++ printedLead ms t).length = false := by
    obtain ⟨e, he, hwhite⟩ := ht.legible.last
    rw [isWhiteBetween, window_append_left (Nat.le_refl _), window_length, ← List.drop_drop, hdrop,
      printedLead, List.drop_left, List.all_eq_false]
    refine ⟨e, List.mem_append_left _ (Text.mem_cells.mpr (List.mem_of_getLast? he)), ?_⟩
    simp [hwhite]
  have hlayout := @memberLayout_of_named (u ++ printedLead ms t) y className c u.length hstart
    (by rw [List.length_append]; exact Nat.le_add_right ..) h.named hlast
    (by rw [hdrop]; exact hlead.undeclared)
    (by rw [hdrop]; exact deciderFrom_printedLead hms ht u y)
    (by rw [hdrop, hmods]; exact hblack)
  rw [hdrop, hmods, hskip] at hlayout
  exact hlayout

end

end ClassRefactor.Code
