import ClassRefactor.Proofs.Code.Quiet
import ClassRefactor.Proofs.Guarded.Scan
import ClassRefactor.Proofs.Text.Cells

/-!
# Guarded masking

The source is masked byte by byte, each byte overwritten in place, and the bytes are then taken for
a text again. A character of several bytes is masked as a whole though its bytes are read one by
one: past the first byte the scan stays where it is.
-/

namespace ClassRefactor

namespace Place

/-- A place that a scan comes to: quotes of one byte, and at least one of them around raw text. -/
def Sound : Place → Prop
  | .quoted close => close.utf8Size = 1
  | .raw quotes => 0 < quotes
  | _ => True

/-- What a byte of a longer character belongs to, and the place after it. -/
def wide : Place → Mode × Place
  | .code _ => (.code, .code false)
  | .lineComment => (.comment, .lineComment)
  | .blockComment fresh => (.comment, .blockComment fresh)
  | .quoted close => (.literal, .quoted close)
  | .verbatim => (.literal, .verbatim)
  | .raw quotes => (.literal, .raw quotes)

@[simp] theorem wide_wide (place : Place) : place.wide.2.wide = place.wide := by cases place <;> rfl

theorem Sound.wide {place : Place} (h : place.Sound) : place.wide.2.Sound := by
  cases place <;> exact h

theorem modes_zero (place : Place) (mode mode' : Mode) (t : Text) :
    place.modes 0 mode t = place.modes 0 mode' t := by
  cases t <;> rfl

/-- A character of several bytes neither opens nor closes anything. -/
theorem step_wide {place : Place} (hplace : place.Sound) {c : Char} (hc : c.utf8Size ≠ 1)
    (rest : Text) : place.step c rest = (place.wide.1, 0, place.wide.2) := by
  have hne : ∀ d : Char, d.utf8Size = 1 → c ≠ d := by
    rintro d hd rfl
    exact hc hd
  have hslash := hne '/' (by decide)
  have hhash := hne '#' (by decide)
  have hat := hne '@' (by decide)
  have hdollar := hne '$' (by decide)
  have hquote := hne '"' (by decide)
  have hsingle := hne '\'' (by decide)
  have hstar := hne '*' (by decide)
  have hline := hne '\n' (by decide)
  have hescape := hne '\\' (by decide)
  have hrun : quoteRun (c :: rest) = 0 := by simp [quoteRun, hquote]
  cases place with
  | code fresh =>
    have hmark : verbatimMark (c :: rest) = none := by
      unfold verbatimMark
      split <;> simp_all
    have hopens : opensString (c :: rest) = false := by
      unfold opensString
      split <;> simp_all
    have hblank : isLayoutBlank c = false := by
      rw [Bool.eq_false_iff]
      intro h
      simp only [isLayoutBlank, Bool.or_eq_true, beq_iff_eq] at h
      rcases h with (((h | h) | h) | h) | h <;> exact hne _ (by decide) h
    simp [step, stepCode, wide, hslash, hhash, hsingle, hline, hmark, hopens, hblank]
  | lineComment => simp [step, wide, hline]
  | blockComment fresh => simp [step, wide, hstar]
  | quoted close => simp [step, wide, hescape, hline, hne close hplace]
  | verbatim => simp [step, wide, hquote]
  | raw quotes =>
    have hpos : ¬ quotes ≤ 0 := Nat.not_le_of_lt hplace
    simp [step, wide, hrun, hpos]

/-- The bytes of a character of several bytes are all read alike. -/
theorem modes_replicate {place : Place} (hplace : place.Sound) {c : Char} (hc : c.utf8Size ≠ 1)
    (mode : Mode) (n : Nat) (t : Text) :
    place.modes 0 mode (List.replicate (n + 1) c ++ t) =
      List.replicate (n + 1) place.wide.1 ++ place.wide.2.modes 0 mode t := by
  induction n generalizing place mode with
  | zero => simp [modes, step_wide hplace hc, modes_zero _ mode place.wide.1]
  | succ n ih =>
    rw [List.replicate_succ, List.cons_append, modes, step_wide hplace hc]
    simp only
    rw [modes_zero _ _ mode, ih hplace.wide, wide_wide, ← List.cons_append, ← List.replicate_succ]

theorem quoteRun_cells (t : Text) : quoteRun t.cells = quoteRun t := by
  induction t with
  | nil => rfl
  | cons c t ih =>
    obtain ⟨n, hcells, hn⟩ := Text.exists_cells_cons c t
    by_cases hc : c = '"'
    · have hzero : n = 0 := by
        rw [hc, show ('"' : Char).utf8Size = 1 by decide] at hn
        omega
      subst hc hzero
      simpa [hcells, quoteRun] using ih
    · simp [hcells, quoteRun, hc]

/-- The second byte of a text that begins with a character of one byte. -/
theorem tail_cells {d : Char} (hd : d.utf8Size = 1) (e : Char) (t : Text) :
    (t.head? = some d ∧ t.cells.tail.head? = some e) =
      (t.head? = some d ∧ t.tail.head? = some e) := by
  cases t with
  | nil => rfl
  | cons c t =>
    obtain ⟨n, hcells, hn⟩ := Text.exists_cells_cons c t
    rw [hcells, List.head?_cons, List.tail_cons, List.tail_cons, eq_iff_iff]
    refine and_congr_right fun hc => ?_
    obtain rfl := Option.some.inj hc
    obtain rfl : n = 0 := by omega
    rw [List.replicate_zero, List.nil_append, Text.head?_cells]

theorem verbatimMark_cells (c : Char) (t : Text) :
    verbatimMark (c :: t.cells) = verbatimMark (c :: t) := by
  have hdollar := tail_cells (d := '$') (by decide) '"' t
  have hat := tail_cells (d := '@') (by decide) '"' t
  simp only [verbatimMark_cons, Text.head?_cells, hdollar, hat]

theorem opensString_cells (c : Char) (t : Text) :
    opensString (c :: t.cells) = opensString (c :: t) := by
  rw [opensString_cons, opensString_cons, Text.head?_cells]

/-- A scan looks ahead for characters of one byte only, so bytes will do. -/
theorem step_cells (place : Place) (c : Char) (t : Text) :
    place.step c (Text.cells t) = place.step c t := by
  have hrun : quoteRun (c :: t.cells) = quoteRun (c :: t) := by
    rw [quoteRun_cons, quoteRun_cons, quoteRun_cells]
  have hdrop : ∀ dollar, dollar ≤ 1 → quoteRun ((c :: t.cells).drop dollar) =
      quoteRun ((c :: t).drop dollar) := by
    intro dollar hdollar
    cases dollar with
    | zero => exact hrun
    | succ dollar =>
      obtain rfl : dollar = 0 := by omega
      exact quoteRun_cells t
  cases place with
  | code fresh =>
    simp only [step, stepCode, Text.head?_cells, verbatimMark_cells, opensString_cells,
      hdrop (if c == '$' then 1 else 0) (by split <;> omega)]
  | lineComment => rfl
  | blockComment fresh => simp only [step, Text.head?_cells]
  | quoted close => rfl
  | verbatim => simp only [step, Text.head?_cells]
  | raw quotes => simp only [step, hrun]

/-- A text begins with so many characters of one byte. -/
structure Narrow (t : Text) (n : Nat) : Prop where
  le : n ≤ t.length
  bytes : ∀ d ∈ t.take n, d.utf8Size = 1

theorem Narrow.tail {c : Char} {t : Text} {n : Nat} (h : Narrow (c :: t) (n + 1)) : Narrow t n :=
  ⟨Nat.le_of_succ_le_succ h.le, fun d hd => h.bytes d (by
    rw [List.take_succ_cons]
    exact List.mem_cons_of_mem _ hd)⟩

theorem narrow_of_head {d : Char} {t : Text} (h : t.head? = some d) (hd : d.utf8Size = 1) :
    Narrow t 1 := by
  obtain ⟨t, rfl⟩ := List.head?_eq_some_iff.mp h
  exact ⟨Nat.le_add_left .., by simpa using hd⟩

theorem verbatimMark_spec {t : Text} {n : Nat} (h : verbatimMark t = some n) : Narrow t n := by
  unfold verbatimMark at h
  split at h <;> cases h <;> exact ⟨Nat.le_add_left .., by simp; decide⟩

theorem quoteRun_spec {t : Text} {n : Nat} (h : n ≤ quoteRun t) : Narrow t n := by
  have hprefix := List.takeWhile_prefix (· == '"') (l := t)
  refine ⟨Nat.le_trans h hprefix.length_le, fun d hd => ?_⟩
  have hrun : d ∈ t.takeWhile (· == '"') := by
    rw [List.prefix_iff_eq_take.mp hprefix]
    exact List.take_subset_take_left t h hd
  have hquote : d = '"' := by
    simpa using List.all_eq_true.mp List.all_takeWhile d hrun
  rw [hquote]
  decide

/-- What is held: characters of one byte, or the one after a backslash in a literal. -/
def Holds (place : Place) (held : Nat) (mode : Mode) (t : Text) : Prop :=
  (∀ d ∈ t.take held, d.utf8Size = 1) ∨
    (∃ close, place = .quoted close) ∧ held = 1 ∧ mode = .literal

theorem holds_zero (place : Place) (mode : Mode) (t : Text) : place.Holds 0 mode t :=
  .inl (by simp)

/-- Where one step leads, and what it holds. Only a backslash may hold more than there is. -/
structure Led (place : Place) (t : Text) (r : Mode × Nat × Place) : Prop where
  sound : r.2.2.Sound
  holds : r.2.2.Holds r.2.1 r.1 t
  within : (∃ close, place = .quoted close) ∨ r.2.1 ≤ t.length

theorem Narrow.led {place next : Place} {t : Text} {mode : Mode} {held : Nat} (h : Narrow t held)
    (hnext : next.Sound) : place.Led t (mode, held, next) :=
  ⟨hnext, .inl h.bytes, .inr h.le⟩

theorem led_zero {place next : Place} {t : Text} {mode : Mode} (h : next.Sound) :
    place.Led t (mode, 0, next) :=
  Narrow.led ⟨Nat.zero_le _, by simp⟩ h

/-- A string opens with its quotes, and with the dollar before them. -/
theorem led_opensString {place : Place} {c : Char} {t : Text}
    (h : opensString (c :: t) = true) :
    place.Led t
      (let dollar := if c == '$' then 1 else 0
        let quotes := quoteRun ((c :: t).drop dollar)
        if 3 ≤ quotes then (.literal, dollar + quotes - 1, .raw quotes)
        else (.literal, dollar, .quoted '"')) := by
  have hkind : c = '"' ∨ c = '$' ∧ t.head? = some '"' := by
    unfold opensString at h
    split at h <;> simp_all
  rcases hkind with rfl | ⟨rfl, hhead⟩
  · have hdollar : (('"' : Char) == '$') = false := by decide
    simp only [hdollar, Bool.false_eq_true, if_false, List.drop_zero, Nat.zero_add]
    split
    · obtain ⟨n, hn⟩ : ∃ n, quoteRun ('"' :: t) = n + 1 :=
        ⟨quoteRun ('"' :: t) - 1, by omega⟩
      rw [hn, Nat.add_sub_cancel]
      exact (quoteRun_spec (Nat.le_of_eq hn.symm)).tail.led (Nat.succ_pos n)
    · exact led_zero rfl
  · simp only [beq_self_eq_true, if_true, List.drop_succ_cons, List.drop_zero,
      Nat.add_sub_cancel_left]
    split
    · rename_i hraw
      exact (quoteRun_spec (Nat.le_refl _)).led (Nat.lt_of_lt_of_le (by decide) hraw)
    · exact (narrow_of_head hhead rfl).led rfl

theorem led_step {place : Place} (hplace : place.Sound) (c : Char) (t : Text) :
    place.Led t (place.step c t) := by
  cases place with
  | code fresh =>
    simp only [step, stepCode]
    split
    · exact led_zero trivial
    · split
      · rename_i hstar
        simp only [Bool.and_eq_true, beq_iff_eq] at hstar
        exact (narrow_of_head hstar.2 (by decide)).led trivial
      · split
        · rename_i n hmark
          cases n with
          | zero => exact led_zero trivial
          | succ n => exact (verbatimMark_spec hmark).tail.led trivial
        · split
          · rename_i hopens
            exact led_opensString hopens
          · split
            · exact led_zero rfl
            · exact led_zero trivial
  | lineComment =>
    simp only [step]
    split <;> exact led_zero trivial
  | blockComment fresh =>
    simp only [step]
    split
    · rename_i hslash
      simp only [Bool.and_eq_true, beq_iff_eq] at hslash
      exact (narrow_of_head hslash.2 (by decide)).led trivial
    · exact led_zero trivial
  | quoted close =>
    simp only [step]
    split
    · exact ⟨hplace, .inr ⟨⟨close, rfl⟩, rfl, rfl⟩, .inl ⟨close, rfl⟩⟩
    · split
      · exact led_zero trivial
      · exact led_zero hplace
  | verbatim =>
    simp only [step]
    split
    · split
      · rename_i hquote
        exact (narrow_of_head (beq_iff_eq.mp hquote) (by decide)).led trivial
      · exact led_zero trivial
    · exact led_zero trivial
  | raw quotes =>
    simp only [step]
    split
    · rename_i hrun
      have hpos : 0 < quotes := hplace
      obtain ⟨n, rfl⟩ : ∃ n, quotes = n + 1 := ⟨quotes - 1, by omega⟩
      exact (quoteRun_spec hrun).tail.led trivial
    · exact led_zero hplace

/-- A longer character is read alike with the bytes before it held or not. -/
theorem modes_wide {place : Place} (hplace : place.Sound) {c : Char} (hc : c.utf8Size ≠ 1)
    {held : Nat} {mode : Mode} {t : Text} (h : place.Holds held mode (c :: t)) (n : Nat)
    (u : Text) :
    place.modes held mode (List.replicate (n + 1) c ++ u) =
      List.replicate (n + 1) place.wide.1 ++ place.wide.2.modes 0 mode u := by
  cases held with
  | zero => exact modes_replicate hplace hc mode n u
  | succ held =>
    rcases h with h | ⟨⟨close, rfl⟩, h, rfl⟩
    · exact absurd (h c (by simp)) hc
    · obtain rfl : held = 0 := by omega
      cases n with
      | zero => rfl
      | succ n =>
        rw [List.replicate_succ, List.cons_append, modes, modes_replicate hplace hc]
        rfl

end Place

/-- The mode of each byte masks it as the mode of its character masks the character. -/
theorem Text.cells_maskWith_modes {place : Place} (hplace : place.Sound) {held : Nat} {mode : Mode}
    {t : Text} (h : place.Holds held mode t) :
    List.zipWith maskCell (cells t) (place.modes held mode (cells t)) =
      cells (maskWith t (place.modes held mode t)) := by
  induction t generalizing place held mode with
  | nil => simp [cells]
  | cons c t ih =>
    by_cases hc : c.utf8Size = 1
    · have hcells : cells (c :: t) = [c] ++ cells t := by rw [cells_cons, hc]; rfl
      have hone : ∀ mode, cells (maskOne c mode) = [maskCell c mode] := fun mode => by
        rw [cells_maskOne, hc]
        rfl
      rw [hcells]
      cases held with
      | succ held =>
        have hrest : place.Holds held mode t := by
          rcases h with h | ⟨-, h, -⟩
          · refine .inl fun d hd => h d ?_
            rw [List.take_succ_cons]
            exact List.mem_cons_of_mem _ hd
          · obtain rfl : held = 0 := by omega
            exact Place.holds_zero ..
        simp only [Place.modes, maskWith_cons, cells_append, hone, List.cons_append,
          List.nil_append, List.zipWith_cons_cons, ih hplace hrest]
      | zero =>
        have hled := Place.led_step hplace c t
        simp only [Place.modes, maskWith_cons, cells_append, hone, List.cons_append,
          List.nil_append, List.zipWith_cons_cons, Place.step_cells, ih hled.sound hled.holds]
    · obtain ⟨n, -, hn⟩ := exists_cells_cons c t
      have hone : ∀ mode, cells (maskOne c mode) = List.replicate (n + 1) (maskCell c mode) :=
        fun mode => by rw [cells_maskOne, hn]
      have hchar : place.modes held mode (c :: t) =
          place.wide.1 :: place.wide.2.modes 0 mode t := Place.modes_wide hplace hc h 0 t
      rw [cells_cons, hn, Place.modes_wide hplace hc h, hchar, maskWith_cons, cells_append, hone,
        List.zipWith_append (by simp), List.zipWith_replicate', ih hplace.wide (Place.holds_zero ..)]

namespace Guarded

/-- The cells from a position on. -/
def past (code : Code) (pos : Nat) : Guarded Code :=
  if pos ≤ code.length then .ok (code.drop pos) else .error (.outside pos)

/-- Overwrites the cell at a position. -/
def put (code : Code) (pos : Nat) (c : Char) : Guarded Code :=
  if pos < code.length then .ok (code.set pos c) else .error (.outside pos)

/-- Masks so many cells from a position on. -/
def cover (code : Code) (mode : Mode) : Nat → Nat → Code → Guarded Code
  | 0, _, out => return out
  | count + 1, pos, out => do
    let c ← fetch code pos
    cover code mode count (pos + 1) (← put out pos (Text.maskCell c mode))

/-- How many cells after the one that is read share its fate. After a backslash there may be none
left. -/
def shared (place : Place) (held : Nat) (rest : Code) : Nat :=
  match place with
  | .quoted _ => min held rest.length
  | _ => held

/-- A cell of the masking scan. -/
def maskTurn (code : Code) (s : Place × Code) (pos : Nat) (c : Char) :
    Guarded (Turn (Place × Code) Code) := do
  let rest ← past code (pos + 1)
  let (mode, held, next) := s.1.step c rest
  let out ← cover code mode (shared s.1 held rest + 1) pos s.2
  return .go (next, out) (pos + held + 1)

/-- The cells of a source text, masked. -/
def maskCells (code : Code) : Guarded Code :=
  sweep code code.length (maskTurn code) (fun s _ => return s.2) (.code true, code) 0

/-- The text that has the given cells. -/
def decode? : Code → Option Text
  | [] => some []
  | c :: rest =>
    if rest.take (c.utf8Size - 1) == List.replicate (c.utf8Size - 1) c then
      (decode? (rest.drop (c.utf8Size - 1))).map (c :: ·)
    else none
termination_by code => code.length
decreasing_by simp only [List.length_drop, List.length_cons]; omega

/-- Masks a text. -/
def mask (t : Text) : Guarded Text := do
  match decode? (← maskCells t.cells) with
  | some masked => return masked
  | none => throw .garbled

/-- What is held is masked with the mode that it is held for. -/
theorem zipWith_modes_held (place : Place) (held : Nat) (mode : Mode) (code : Code) :
    List.zipWith Text.maskCell code (place.modes held mode code) =
      (code.take held).map (Text.maskCell · mode) ++
        List.zipWith Text.maskCell (code.drop held) (place.modes 0 .code (code.drop held)) := by
  induction held generalizing code with
  | zero => simp [place.modes_zero mode .code]
  | succ held ih =>
    cases code with
    | nil => rfl
    | cons c code => simp [Place.modes, ih]

theorem decode?_cells (t : Text) : decode? t.cells = some t := by
  induction t with
  | nil => simp [decode?, Text.cells]
  | cons c t ih =>
    obtain ⟨n, hcells, hn⟩ := Text.exists_cells_cons c t
    rw [hcells, decode?, hn, Nat.add_sub_cancel]
    simp [ih]

theorem drop_eq_cons {code : Code} {pos : Nat} {c : Char} (hc : code[pos]? = some c) :
    code.drop pos = c :: code.drop (pos + 1) := by
  obtain ⟨hlt, hget⟩ := List.getElem?_eq_some_iff.mp hc
  rw [List.drop_eq_getElem_cons hlt, hget]

/-- What is covered: so many cells from `pos` on. -/
theorem cover_eq {code : Code} (mode : Mode) {count pos : Nat} {out : Code}
    (hbound : pos + count ≤ code.length) (hlen : out.length = code.length) :
    cover code mode count pos out = .ok (out.take pos ++
      ((code.drop pos).take count).map (Text.maskCell · mode) ++ out.drop (pos + count)) := by
  induction count generalizing pos out with
  | zero => simp [cover]
  | succ count ih =>
    have hlt : pos < code.length := by omega
    obtain ⟨c, hc⟩ : ∃ c, code[pos]? = some c := ⟨_, List.getElem?_eq_getElem hlt⟩
    have hput : put out pos (Text.maskCell c mode) = .ok (out.set pos (Text.maskCell c mode)) :=
      if_pos (by omega)
    have hat : pos + (count + 1) = pos + 1 + count := by omega
    rw [cover, fetch_eq hc, ok_bind, hput, ok_bind, ih (by omega) (by simp [hlen]), hat,
      drop_eq_cons hc, List.take_succ_cons, List.map_cons, List.drop_set_of_lt (by omega),
      List.take_add_one, List.take_set_of_le (Nat.le_refl _), List.getElem?_set_self (by omega)]
    simp

/-- What the scan has masked and has still to mask. -/
def maskAnswer (code : Code) (s : Place × Code) (pos : Nat) : Code :=
  s.2.take pos ++ List.zipWith Text.maskCell (code.drop pos) (s.1.modes 0 .code (code.drop pos))

theorem shared_eq {place : Place} {rest : Code} {r : Mode × Nat × Place} (h : place.Led rest r) :
    shared place r.2.1 rest = min r.2.1 rest.length := by
  rcases h.within with ⟨close, rfl⟩ | hle
  · rfl
  · rw [Nat.min_eq_left hle]
    cases place <;> first | rfl | exact Nat.min_eq_left hle

theorem maskTurn_spec {code : Code} {place : Place} {out : Code} {pos : Nat} {c : Char}
    (hplace : place.Sound) (hlen : out.length = code.length) (hlt : pos < code.length)
    (hc : code[pos]? = some c) :
    ∃ s' next, maskTurn code (place, out) pos c = .ok (.go s' next) ∧ pos < next ∧
      (s'.1.Sound ∧ s'.2.length = code.length) ∧
      maskAnswer code (place, out) pos = maskAnswer code s' next := by
  have hdrop := drop_eq_cons hc
  have hpast : past code (pos + 1) = .ok (code.drop (pos + 1)) := if_pos hlt
  have hrest : (code.drop (pos + 1)).length = code.length - (pos + 1) := List.length_drop
  have hled := Place.led_step hplace c (code.drop (pos + 1))
  have hshared := shared_eq hled
  rw [maskTurn, hpast, ok_bind]
  simp only
  rw [maskAnswer, hdrop, Place.modes]
  generalize place.step c (code.drop (pos + 1)) = r at hled hshared
  obtain ⟨mode, held, next⟩ := r
  simp only at hshared ⊢
  rw [hshared, cover_eq mode (by omega) hlen, ok_bind, hdrop, List.take_succ_cons,
    ← List.take_eq_take_min]
  refine ⟨_, _, rfl, by omega, ⟨hled.sound, ?_⟩, ?_⟩
  · simp only [List.length_append, List.length_take, List.length_map, List.length_cons,
      List.length_drop]
    omega
  · -- All that is held and is there was covered with the cell itself.
    have hmasked : (out.take pos ++ (c :: (code.drop (pos + 1)).take held).map
        (Text.maskCell · mode) ++
        out.drop (pos + (min held (code.drop (pos + 1)).length + 1))).take (pos + held + 1) =
        out.take pos ++ (c :: (code.drop (pos + 1)).take held).map (Text.maskCell · mode) := by
      have hfront : (out.take pos ++ (c :: (code.drop (pos + 1)).take held).map
          (Text.maskCell · mode)).length = pos + (min held (code.drop (pos + 1)).length + 1) := by
        simp only [List.length_append, List.length_take, List.length_map, List.length_cons]
        omega
      generalize out.take pos ++ _ = front at hfront ⊢
      rcases Nat.le_total held (code.drop (pos + 1)).length with hle | hle
      · exact List.take_left' (by omega)
      · have hend : out.drop (pos + (min held (code.drop (pos + 1)).length + 1)) = [] :=
          List.drop_eq_nil_of_le (by omega)
        rw [hend, List.append_nil]
        exact List.take_of_length_le (by omega)
    have hlast : (code.drop (pos + 1)).drop held = code.drop (pos + held + 1) := by
      rw [List.drop_drop]
      congr 1
      omega
    rw [maskAnswer, hmasked, List.zipWith_cons_cons, zipWith_modes_held, hlast]
    simp

theorem maskCells_eq (code : Code) :
    maskCells code =
      .ok (List.zipWith Text.maskCell code ((Place.code true).modes 0 .code code)) := by
  refine sweep_eq (maskAnswer code) (fun s _ => s.1.Sound ∧ s.2.length = code.length)
    (Nat.le_refl _) (fun s pos hle hinv => ?_) (fun s pos c hlt hc hinv => ?_) ⟨trivial, rfl⟩
  · obtain ⟨place, out⟩ := s
    have hlen : out.length = code.length := hinv.2
    have hout : out.take pos = out := List.take_of_length_le (by omega)
    simp [maskAnswer, List.drop_eq_nil_of_le hle, hout]
  · obtain ⟨place, out⟩ := s
    obtain ⟨hplace, hlen⟩ := hinv
    simp only at hplace hlen
    exact .inr (maskTurn_spec hplace hlen hlt hc)

theorem mask_eq (t : Text) : mask t = .ok t.mask := by
  have hplace : (Place.code true).Sound := trivial
  have hcells : List.zipWith Text.maskCell t.cells ((Place.code true).modes 0 .code t.cells) =
      t.mask.cells := Text.cells_maskWith_modes hplace (Place.holds_zero ..)
  rw [mask, maskCells_eq, ok_bind, hcells, decode?_cells]
  rfl

end Guarded

end ClassRefactor
