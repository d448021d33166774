import ClassRefactor.Proofs.Guarded.Callable

/-!
# Guarded reading of members

The deciding cell of a member is found by a loop that jumps over tuple types. What is then read as a
field, a constructor or a method gives the layout of the member together with its tree.
-/

namespace ClassRefactor.Guarded

/-- Whether a parenthesis opens a tuple type. -/
def opensTuple (t : Text) (start opening : Nat) : Guarded Bool := do
  let stop ← trimBlanks t.cells start opening
  if stop == start then return true
  else
    let c ← fetch t.cells (← minus stop 1)
    if c == '>' then return false
    else if isIdentCell c then
      let wordStart ← runDown isIdentCell t.cells start stop
      return (Code.known? memberModifiers (← cutCells t ⟨wordStart, stop⟩)).isSome
    else return true

/-- Whether a cell opens a tuple type outside type arguments. -/
def opensTupleOutside (t : Text) (start angles pos : Nat) (c : Char) : Guarded Bool :=
  if c == '(' && angles == 0 then opensTuple t start pos else return false

/-- A cell of the search for the one that decides the kind of a member. -/
def deciderTurn (t : Text) (start stop angles pos : Nat) (c : Char) :
    Guarded (Turn Nat Code.Decider) :=
  if c == '<' then return .go (angles + 1) (pos + 1)
  else if c == '>' then
    if 0 < angles then do return .go (← minus angles 1) (pos + 1) else return .go angles (pos + 1)
  else do
    if ← opensTupleOutside t start angles pos c then
      match ← matchingClose '(' ')' (← upTo t.cells stop) pos with
      | none => return .done .missing
      | some close => return .go angles (close + 1)
    else if angles == 0 && (c == '(' || c == '{' || c == ';' || c == '=') then
      return .done (.at pos)
    else return .go angles (pos + 1)

/-- Looks for the deciding cell. -/
def decider (t : Text) (start stop : Nat) : Guarded Code.Decider :=
  sweep t.cells stop (deciderTurn t start stop) (fun _ _ => return .missing) 0 start

/-- A member that is left opaque, with a signature that stops at `signatureStop`. -/
def opaqueMember (s : Source) (r : Range) (start signatureStop : Nat) :
    Guarded (MemberLayout × Member) := do
  let text ← lift (s.opaqueText r)
  let signature ← range start (max signatureStop start)
  return ({ range := r, signature, shape := .other }, .other text)

/-- Whether one of the words that make a member opaque stands among some characters. -/
def declares (t : Text) : List String → Guarded Bool
  | [] => return false
  | k :: ks => do if ← containsWord k.toList t then return true else declares t ks

/-- Reads the member in a range of the body of the named class. -/
def member (s : Source) (className : Code) (r : Range) : Guarded (MemberLayout × Member) := do
  let start ← skipAttributes s.masked.cells r.start r.stop
  let whole ← range r.start r.stop
  match ← decider s.masked start r.stop with
  | .missing => opaqueMember s whole start r.stop
  | .at pos =>
    let head ← cut s.masked ⟨start, pos⟩
    if ← declares head declarationKeywords then opaqueMember s whole start pos
    else
      let c ← fetch s.masked.cells pos
      if c == '(' then
        match ← callable s className start pos r.stop with
        | none => opaqueMember s whole start pos
        | some (shape, tree) =>
          let signature ← range start (shape.callable?.elim pos fun c => c.closing + 1)
          return ({ range := whole, signature, shape }, tree)
      else if c == '{' || (c == '=' && s.masked.cells[pos + 1]? == some '>') then
        opaqueMember s whole start pos
      else
        match ← field s start r.stop with
        | none => opaqueMember s whole start r.stop
        | some (layout, tree) =>
          let signature ← range start r.stop
          return ({ range := whole, signature, shape := .field layout }, .field tree)

theorem opensTuple_eq {t : Text} {start opening : Nat} (hle : start ≤ opening)
    (hstart : Code.Seam t.cells start) (hopen : Code.Seam t.cells opening) :
    opensTuple t start opening = .ok (Code.opensTuple t.cells start opening) := by
  obtain ⟨ht1, -, ht3⟩ := Code.trimBlanks_spec hle hstart hopen
  rw [opensTuple, trimBlanks_eq hle hopen.le, ok_bind, Code.opensTuple]
  generalize Code.trimBlanks t.cells start opening = stop at *
  simp only
  split
  · rfl
  · rename_i hne
    have hlt : start < stop := by
      rw [beq_iff_eq] at hne
      omega
    obtain ⟨c, hc⟩ : ∃ c, t.cells[stop - 1]? = some c :=
      ⟨_, List.getElem?_eq_getElem (by have := ht3.le; omega)⟩
    rw [minus_eq (by omega), ok_bind, fetch_eq hc, ok_bind, hc]
    simp only
    split
    · rfl
    · split
      · have hseam := Code.seam_runBack isIdentCell ht1 hstart ht3
        rw [runDown_eq isIdentCell ht1 ht3.le, ok_bind, cutCells_eq ⟨Nat.sub_le .., hseam, ht3⟩,
          ok_bind]
        rfl
      · rfl

/-- Cells that are passed over do not count. -/
theorem deciderFrom_skip {code : Code} {start stop angles skip pos : Nat} {cells : Code} :
    code.deciderFrom start stop angles skip pos cells =
      code.deciderFrom start stop angles 0 (pos + skip) (cells.drop skip) := by
  induction skip generalizing pos cells with
  | zero => rfl
  | succ skip ih =>
    cases cells with
    | nil => rfl
    | cons c rest =>
      have hat : pos + 1 + skip = pos + (skip + 1) := by omega
      rw [Code.deciderFrom, ih, List.drop_succ_cons, hat]

theorem decider_eq {t : Text} {start stop : Nat} (hstart : Code.Seam t.cells start)
    (hstop : stop ≤ t.cells.length) :
    decider t start stop =
      .ok (Code.deciderFrom t.cells start stop 0 0 start (Code.window t.cells start stop)) := by
  refine sweep_eq (fun angles pos => Code.deciderFrom t.cells start stop angles 0 pos
    (Code.window t.cells pos stop)) (fun _ pos => start ≤ pos) hstop
    (fun angles pos hle _ => ?_) (fun angles pos c hlt hc hle => ?_) (Nat.le_refl _)
  · rw [Code.window_of_le hle]
    rfl
  · rw [Code.window_of_lt hlt hc, Code.deciderFrom, deciderTurn]
    split
    · exact .inr ⟨_, _, rfl, Nat.lt_succ_self _, Nat.le_succ_of_le hle, rfl⟩
    · split
      · rename_i hclose
        rcases Nat.eq_zero_or_pos angles with rfl | hangles
        · exact .inr ⟨0, pos + 1, rfl, Nat.lt_succ_self _, Nat.le_succ_of_le hle, rfl⟩
        · refine .inr ⟨angles - 1, pos + 1, ?_, Nat.lt_succ_self _, Nat.le_succ_of_le hle, rfl⟩
          simp [hangles, minus_eq hangles]
      · have htuple : opensTupleOutside t start angles pos c =
            .ok (c == '(' && angles == 0 && Code.opensTuple t.cells start pos) := by
          unfold opensTupleOutside
          split
          · rename_i hopen
            have hparen : c = '(' := by simp_all
            rw [opensTuple_eq hle hstart (Code.seam_of_solid (hparen ▸ hc) (by decide)).1, hopen,
              Bool.true_and]
          · rename_i hopen
            rw [Bool.not_eq_true] at hopen
            rw [hopen]
            rfl
        rw [htuple, ok_bind]
        split
        · rw [upTo_eq hstop, ok_bind, matchingClose_eq (by decide), ok_bind]
          cases hclose : Code.matchingClose? '(' ')' (t.cells.take stop) pos with
          | none => exact .inl rfl
          | some close =>
            obtain ⟨hgrow, -, hat, hdrop⟩ := window_drop_close hstop hclose
            refine .inr ⟨angles, close + 1, rfl, by omega, by omega, ?_⟩
            simp only
            rw [deciderFrom_skip, hat, hdrop]
        · split
          · exact .inl rfl
          · exact .inr ⟨_, _, rfl, Nat.lt_succ_self _, Nat.le_succ_of_le hle, rfl⟩

theorem declares_eq {t : Text} {words : List String}
    (h : ∀ k ∈ words, k.toList ≠ [] ∧ ∀ c ∈ k.toList, c.utf8Size = 1) :
    declares t words = .ok (words.any fun k => Code.containsWord k.toList t.cells) := by
  induction words with
  | nil => rfl
  | cons k ks ih =>
    obtain ⟨hne, hascii⟩ := h k List.mem_cons_self
    rw [declares, containsWord_eq hne hascii, ok_bind, List.any_cons,
      ih fun j hj => h j (List.mem_cons_of_mem _ hj)]
    cases Code.containsWord k.toList t.cells <;> rfl

/-- A member whose ranges are in order is read as its shape is. -/
theorem read_of_readShape {s : Source} {m : MemberLayout} {tree : Member}
    (hrange : m.range.start ≤ m.range.stop) (hsignature : m.signature.start ≤ m.signature.stop)
    (h : readShape s m.range m.shape = .ok tree) : m.read s = .ok tree := by
  obtain ⟨range, signature, shape⟩ := m
  have hread : MemberLayout.read s ⟨range, signature, shape⟩ =
      range.checked >>= fun _ => signature.checked >>= fun _ => readShape s range shape := by
    cases shape <;> rfl
  simp only at hrange hsignature
  rw [hread, Range.checked, if_pos hrange, ok_bind, Range.checked, if_pos hsignature, ok_bind, h]

section

variable {s : Source} (hs : s.Sound)
include hs

theorem opaqueMember_spec {r : Range} (hr : Code.Fits s.masked.cells r) (start signatureStop : Nat) :
    ∃ tree, opaqueMember s r start signatureStop =
        .ok (⟨r, ⟨start, max signatureStop start⟩, .other⟩, tree) ∧
      MemberLayout.read s ⟨r, ⟨start, max signatureStop start⟩, .other⟩ = .ok tree := by
  have htext := Source.opaqueText_eq hs hr
  have hle : start ≤ max signatureStop start := Nat.le_max_right ..
  refine ⟨.other (.ofText (s.text.slice r.start r.stop)), ?_, ?_⟩
  · rw [opaqueMember, lift_eq htext, ok_bind, range_eq hle]
    rfl
  · refine read_of_readShape hr.1 hle ?_
    rw [readShape, htext]
    rfl

theorem member_spec (className : Code) {r : Range} (hlt : r.start < r.stop)
    (hstart : Code.Seam s.masked.cells r.start) (hstop : Code.Seam s.masked.cells r.stop)
    (huncut : Code.Uncut s.masked.cells r.stop) :
    ∃ tree, member s className r = .ok (Code.memberLayout s.masked.cells className r, tree) ∧
      (Code.memberLayout s.masked.cells className r).read s = .ok tree := by
  have hfits : Code.Fits s.masked.cells r := ⟨Nat.le_of_lt hlt, hstart, hstop⟩
  obtain ⟨-, hs2, hs3⟩ := Code.skipAttributes_spec (Nat.le_of_lt hlt) hstart hstop
  rw [member, skipAttributes_eq hstop.le, ok_bind, range_eq (Nat.le_of_lt hlt), ok_bind]
  simp only [Code.memberLayout]
  generalize Code.skipAttributes s.masked.cells r.start r.stop = start at *
  have hopaque := opaqueMember_spec hs hfits start
  rw [decider_eq hs3 hstop.le, ok_bind]
  cases hdecider : Code.deciderFrom s.masked.cells start r.stop 0 0 start
      (Code.window s.masked.cells start r.stop) with
  | missing => exact hopaque r.stop
  | «at» pos =>
    obtain ⟨hp1, hp2, hp3⟩ := Code.deciderFrom_spec rfl hdecider
    have hseam : Code.Seam s.masked.cells pos := by
      rcases hp3 with h | h | h | h <;> exact (Code.seam_of_solid h (by decide)).1
    obtain ⟨hcut, hcells⟩ := cut_of_fits (t := s.masked) (r := ⟨start, pos⟩) ⟨hp1, hs3, hseam⟩
    have hkeywords : ∀ k ∈ declarationKeywords, k.toList ≠ [] ∧ ∀ c ∈ k.toList, c.utf8Size = 1 := by
      decide
    simp only [hcut, ok_bind, declares_eq hkeywords, hcells]
    split
    · exact hopaque pos
    · obtain ⟨c, hc⟩ : ∃ c, s.masked.cells[pos]? = some c :=
        ⟨_, List.getElem?_eq_getElem (Nat.lt_of_lt_of_le hp2 hstop.le)⟩
      have hsome : ∀ d : Char, (some c == some d) = (c == d) := fun _ => rfl
      simp only [fetch_eq hc, ok_bind, hc, hsome]
      split
      · rename_i hopen
        have hopen : s.masked.cells[pos]? = some '(' := by rw [hc, beq_iff_eq.mp hopen]
        obtain ⟨o, ho, hshape⟩ := callable_spec hs className hp1 hopen hs3 hstop
          huncut r
        have hspec := fun (shape : MemberShape)
          (h : Code.callable? s.masked.cells className start pos r.stop = some shape) =>
            Code.callable?_spec hp1 hopen hs3 hstop huncut r rfl h
        rw [ho, ok_bind]
        generalize Code.callable? s.masked.cells className start pos r.stop = found at *
        cases hshape with
        | none => exact hopaque pos
        | @some shape p hread =>
          obtain ⟨shape', tree⟩ := p
          obtain ⟨rfl, hread⟩ := hread
          obtain ⟨k, hk, -, -, hlaid⟩ := hspec _ rfl
          have hsignature : start ≤ shape'.callable?.elim pos fun c => c.closing + 1 := by
            have := hlaid.ordered
            have := hlaid.lead
            have := hlaid.lead_before
            simp only [hk, Option.elim_some] at *
            omega
          simp only [range_eq hsignature, ok_bind, Nat.max_eq_left hsignature]
          exact ⟨tree, rfl, read_of_readShape hfits.1 hsignature hread⟩
      · split
        · exact hopaque pos
        · obtain ⟨o, ho, hfield⟩ := field_spec hs (Nat.lt_of_le_of_lt hp1 hp2) hs3 hstop
          rw [ho, ok_bind]
          generalize Code.field? s.masked.cells start r.stop = found at hfield
          cases hfield with
          | none => exact hopaque r.stop
          | @some layout p hread =>
            obtain ⟨layout', tree⟩ := p
            obtain ⟨rfl, hread⟩ := hread
            simp only [range_eq hs2, ok_bind, Nat.max_eq_left hs2]
            refine ⟨.field tree, rfl, read_of_readShape hfits.1 hs2 ?_⟩
            rw [readShape, hread]
            rfl

end

end ClassRefactor.Guarded
