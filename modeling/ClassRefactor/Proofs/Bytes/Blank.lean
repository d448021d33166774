import ClassRefactor.Proofs.Bytes.Scan

/-!
# The marks of all bytes

Turn by turn the scan of bytes keeps in step with the scan of characters, so it marks every byte
just once, in order, and with what its character belongs to. Overwriting the bytes where their marks
stand gives the bytes of the masked text, which is a text with the same boundaries.
-/

namespace ClassRefactor

/-- What is said of the characters of a text, said of their bytes. -/
def Text.spread {α : Type} (t : Text) (as : List α) : List α :=
  (t.zip as).flatMap fun p => List.replicate p.1.utf8Size p.2

namespace Bytes

open Guarded (item)

/-- The kind of each character of a text, as `Place.modes` has the mode of each. -/
def kinds (place : Place) (held : Nat) (kind : Kind) : Text → List Kind
  | [] => []
  | c :: t =>
    match held with
    | held + 1 => kind :: kinds place held kind t
    | 0 =>
      let (_, held, next) := place.step c t
      kindRead place next :: kinds next held (kindRead place next) t

theorem kinds_zero (place : Place) (kind kind' : Kind) (t : Text) :
    kinds place 0 kind t = kinds place 0 kind' t := by
  cases t <;> rfl

/-- The bytes that share the kind of the one before them are marked with it. -/
theorem zipMarks_kinds (place : Place) (held : Nat) (kind : Kind) (pos : Nat) {left : List UInt8}
    {code : Code} (h : left.length = code.length) :
    zipMarks pos left (kinds place held kind code) =
      zipMarks pos (left.take held) (List.replicate held kind) ++
        zipMarks (pos + held) (left.drop held) (kinds place 0 .code (code.drop held)) := by
  induction held generalizing pos left code with
  | zero => simp [zipMarks, kinds_zero place kind .code]
  | succ held ih =>
    cases code with
    | nil =>
      rw [List.length_nil, List.length_eq_zero_iff] at h
      simp [h, zipMarks]
    | cons c code =>
      cases left with
      | nil => cases h
      | cons b left =>
        rw [kinds, zipMarks, ih (pos + 1) (Nat.succ.inj h), List.take_succ_cons,
          List.replicate_succ, zipMarks, List.drop_succ_cons, List.drop_succ_cons, List.cons_append,
          Nat.add_right_comm]
        rfl

/-- From any position on, the scan of bytes sets one mark for each byte that is left. The induction
is on how many bytes are left; a turn passes over at least one of them. -/
theorem marksFrom_eq {bytes : List UInt8} {s : State} {place : Place} (hs : Stands s place)
    {pos : Nat} {left : List UInt8} {code : Code} (hleft : bytes.drop pos = left)
    (hspells : List.Forall₂ Spells left code) :
    marksFrom bytes s pos = .ok (zipMarks pos left (kinds place 0 .code code)) := by
  induction hn : left.length using Nat.strongRecOn generalizing s place pos left code with
  | ind n ih =>
    rw [marksFrom]
    cases hspells with
    | nil =>
      have hle := List.drop_eq_nil_iff.mp hleft
      rw [if_neg (Nat.not_lt.mpr hle)]
      simp [zipMarks]
    | @cons b c rest ahead hb hahead =>
      have hlt : pos < bytes.length := by
        have hlength := congrArg List.length hleft
        rw [List.length_drop, List.length_cons] at hlength
        omega
      have hitem : item bytes pos = .ok b := by
        have hget : bytes[pos]? = some b := by rw [← List.head?_drop, hleft, List.head?_cons]
        simp [item, hget]
      obtain ⟨s', hturn, hs'⟩ := turn_spec hleft hb hahead hs
      have hnext : pos < pos + ((place.step c ahead).2.1 + 1) := by omega
      have hrest : bytes.drop (pos + ((place.step c ahead).2.1 + 1)) =
          rest.drop (place.step c ahead).2.1 := by
        rw [← List.drop_drop, hleft, List.drop_succ_cons]
      rw [if_pos hlt, hitem, Guarded.ok_bind, hturn, Guarded.ok_bind]
      simp only [hnext, if_true]
      rw [ih _ (by rw [List.length_drop, ← hn, List.length_cons]; omega) hs' hrest
        (List.forall₂_drop _ hahead) rfl, Guarded.ok_bind, kinds, zipMarks,
        zipMarks_kinds _ _ _ _ hahead.length_eq, List.take_succ_cons, List.replicate_succ, zipMarks,
        Nat.add_assoc pos 1, Nat.add_comm 1]
      rfl

/-- The scan of a source marks each byte once, with the kind that the scan of characters gives the
cell of the byte. -/
theorem marks_eq (t : Text) :
    marks t.bytes = .ok (zipMarks 0 t.bytes (kinds (.code true) 0 .code t.cells)) :=
  marksFrom_eq (.code true) (List.drop_zero) (spells_cells t)

theorem index_zipMarks (pos : Nat) {bytes : List UInt8} {kinds : List Kind}
    (h : bytes.length = kinds.length) :
    (zipMarks pos bytes kinds).map Mark.index = List.range' pos bytes.length := by
  induction bytes generalizing pos kinds with
  | nil => simp [zipMarks]
  | cons b bytes ih =>
    cases kinds with
    | nil => cases h
    | cons kind kinds =>
      rw [zipMarks, List.map_cons, ih _ (Nat.succ.inj h), List.length_cons, List.range'_succ]

theorem byte_zipMarks (pos : Nat) {bytes : List UInt8} {kinds : List Kind}
    (h : bytes.length = kinds.length) : (zipMarks pos bytes kinds).map Mark.byte = bytes := by
  induction bytes generalizing pos kinds with
  | nil => simp [zipMarks]
  | cons b bytes ih =>
    cases kinds with
    | nil => cases h
    | cons kind kinds => rw [zipMarks, List.map_cons, ih _ (Nat.succ.inj h)]

theorem kind_zipMarks (pos : Nat) {bytes : List UInt8} {kinds : List Kind}
    (h : bytes.length = kinds.length) : (zipMarks pos bytes kinds).map Mark.kind = kinds := by
  induction bytes generalizing pos kinds with
  | nil =>
    rw [List.length_nil, eq_comm, List.length_eq_zero_iff] at h
    simp [zipMarks, h]
  | cons b bytes ih =>
    cases kinds with
    | nil => cases h
    | cons kind kinds => rw [zipMarks, List.map_cons, ih _ (Nat.succ.inj h)]

theorem of_mem_zipMarks {pos : Nat} {bytes : List UInt8} {kinds : List Kind} {m : Mark}
    (h : m ∈ zipMarks pos bytes kinds) :
    ∃ i, m.index = pos + i ∧ bytes[i]? = some m.byte ∧ kinds[i]? = some m.kind := by
  induction bytes generalizing pos kinds with
  | nil => simp [zipMarks] at h
  | cons b bytes ih =>
    cases kinds with
    | nil => simp [zipMarks] at h
    | cons kind kinds =>
      rw [zipMarks] at h
      rcases List.mem_cons.mp h with rfl | h
      · exact ⟨0, rfl, rfl, rfl⟩
      · obtain ⟨i, hindex, hbyte, hkind⟩ := ih h
        exact ⟨i + 1, by rw [hindex, Nat.add_assoc, Nat.add_comm 1], hbyte, hkind⟩

/-! ## The kinds of characters -/

@[simp] theorem length_kinds (place : Place) (held : Nat) (kind : Kind) (t : Text) :
    (kinds place held kind t).length = t.length := by
  induction t generalizing place held kind with
  | nil => rfl
  | cons c t ih => cases held <;> simp [kinds, ih]

theorem mode_kindRead (place : Place) (c : Char) (t : Text) :
    (kindRead place (place.step c t).2.2).mode = (place.step c t).1 := by
  have hquoted : ∀ close, (kindAt (.quoted close)).mode = .literal := by
    intro close
    rw [kindAt]
    split <;> rfl
  cases place with
  | code fresh =>
    simp only [Place.step, Place.stepCode, kindRead]
    repeat' split
    all_goals rfl
  | lineComment => rfl
  | blockComment fresh =>
    simp only [Place.step]
    split <;> rfl
  | quoted close =>
    simp only [Place.step]
    split <;> exact hquoted close
  | verbatim =>
    simp only [Place.step]
    repeat' split
    all_goals rfl
  | raw quotes =>
    simp only [Place.step]
    split <;> rfl

/-- Kinds are finer than modes. -/
theorem mode_kinds (place : Place) (held : Nat) (kind : Kind) (t : Text) :
    (kinds place held kind t).map Kind.mode = place.modes held kind.mode t := by
  induction t generalizing place held kind with
  | nil => rfl
  | cons c t ih =>
    cases held with
    | succ held => rw [kinds, Place.modes, List.map_cons, ih]
    | zero => rw [kinds, Place.modes, List.map_cons, ih, mode_kindRead]

theorem kindRead_quoted {place : Place} {c : Char} {t : Text} {close : Char}
    (h : (place.step c t).2.2 = .quoted close) :
    kindRead place (.quoted close) = kindAt (.quoted close) := by
  cases place with
  | code fresh => rfl
  | lineComment =>
    simp only [Place.step] at h
    split at h <;> cases h
  | blockComment fresh =>
    simp only [Place.step] at h
    split at h <;> cases h
  | quoted close' =>
    simp only [Place.step] at h
    repeat' split at h
    all_goals
      cases h
      try rfl
  | verbatim =>
    simp only [Place.step] at h
    repeat' split at h
    all_goals cases h
  | raw quotes =>
    simp only [Place.step] at h
    split at h <;> cases h

/-- A character of several bytes changes nothing, so its bytes are all of one kind. -/
theorem kinds_replicate {place : Place} (hplace : place.Sound) {c : Char} (hc : c.utf8Size ≠ 1)
    (kind : Kind) (n : Nat) (t : Text) :
    kinds place 0 kind (List.replicate (n + 1) c ++ t) =
      List.replicate (n + 1) (kindAt place) ++ kinds place.wide.2 0 kind t := by
  have hread : kindRead place place.wide.2 = kindAt place := by cases place <;> rfl
  have hwide : kindAt place.wide.2 = kindAt place := by cases place <;> rfl
  induction n generalizing place kind with
  | zero => simp [kinds, Place.step_wide hplace hc, hread, kinds_zero _ _ kind]
  | succ n ih =>
    rw [List.replicate_succ, List.cons_append, kinds, Place.step_wide hplace hc]
    simp only
    rw [hread, kinds_zero _ _ kind, ih hplace.wide, hwide, Place.wide_wide, ← List.cons_append,
      ← List.replicate_succ]
    · cases place <;> rfl
    · cases place <;> rfl

/-- What is held: characters of one byte, or the one after a backslash in a literal. -/
def Holds (place : Place) (held : Nat) (kind : Kind) (t : Text) : Prop :=
  (∀ d ∈ t.take held, d.utf8Size = 1) ∨
    (∃ close, place = .quoted close) ∧ held = 1 ∧ kind = kindAt place

theorem holds_zero (place : Place) (kind : Kind) (t : Text) : Holds place 0 kind t :=
  .inl (by simp)

theorem holds_step {place : Place} (hplace : place.Sound) (c : Char) (t : Text) :
    Holds (place.step c t).2.2 (place.step c t).2.1 (kindRead place (place.step c t).2.2) t := by
  rcases (Place.led_step hplace c t).holds with h | ⟨⟨close, hclose⟩, hheld, -⟩
  · exact .inl h
  · refine .inr ⟨⟨close, hclose⟩, hheld, ?_⟩
    rw [hclose]
    exact kindRead_quoted hclose

end Bytes

theorem Text.spread_cons {α : Type} (c : Char) (t : Text) (a : α) (as : List α) :
    Text.spread (c :: t) (a :: as) = List.replicate c.utf8Size a ++ Text.spread t as := rfl

theorem Text.spread_map {α β : Type} (f : α → β) (t : Text) (as : List α) :
    t.spread (as.map f) = (t.spread as).map f := by
  simp [spread, List.zip_map_right, List.flatMap_map, List.map_flatMap]

namespace Bytes

/-- The cells of a character are all of one kind. -/
theorem kinds_cells {place : Place} (hplace : place.Sound) {held : Nat} {kind : Kind} {t : Text}
    (h : Holds place held kind t) :
    kinds place held kind t.cells = t.spread (kinds place held kind t) := by
  induction t generalizing place held kind with
  | nil => rfl
  | cons c t ih =>
    by_cases hc : c.utf8Size = 1
    · have hcells : Text.cells (c :: t) = c :: Text.cells t := by rw [Text.cells_cons, hc]; rfl
      rw [hcells]
      cases held with
      | succ held =>
        have hrest : Holds place held kind t := by
          rcases h with h | ⟨-, h, -⟩
          · refine .inl fun d hd => h d ?_
            rw [List.take_succ_cons]
            exact List.mem_cons_of_mem _ hd
          · obtain rfl : held = 0 := by omega
            exact holds_zero ..
        rw [kinds, kinds, Text.spread_cons, hc, ih hplace hrest]
        rfl
      | zero =>
        have hrest := ih (Place.led_step hplace c t).sound (holds_step hplace c t)
        simp only [kinds, Place.step_cells, Text.spread_cons, hc, hrest]
        rfl
    · obtain ⟨n, -, hn⟩ := Text.exists_cells_cons c t
      have hwide : ∀ u : Text, ∀ m, kinds place held kind (List.replicate (m + 1) c ++ u) =
          List.replicate (m + 1) (kindAt place) ++ kinds place.wide.2 0 .code u := by
        intro u m
        cases held with
        | zero => rw [kinds_replicate hplace hc, kinds_zero _ kind .code]
        | succ held =>
          rcases h with h | ⟨⟨close, rfl⟩, h, rfl⟩
          · exact absurd (h c (by simp)) hc
          · obtain rfl : held = 0 := by omega
            cases m with
            | zero => exact congrArg (_ :: ·) (kinds_zero ..)
            | succ m =>
              rw [List.replicate_succ, List.cons_append, kinds, kinds_replicate hplace hc,
                kinds_zero _ (kindAt (.quoted close)) .code]
              rfl
      have hone : kinds place held kind (c :: t) = kindAt place :: kinds place.wide.2 0 .code t :=
        hwide t 0
      rw [Text.cells_cons, hn, hwide, hone, Text.spread_cons, hn, ih hplace.wide (holds_zero ..)]

/-! ## Overwriting -/

/-- Overwrites the byte at a position. -/
def put (bytes : List UInt8) (pos : Nat) (b : UInt8) : Guarded (List UInt8) :=
  if pos < bytes.length then .ok (bytes.set pos b) else .error (.outside pos)

/-- What stands for a byte of some mode: itself in code, a blank in a comment unless it is a line
feed, and a quote in a literal. -/
def shown (b : UInt8) : Mode → UInt8
  | .code => b
  | .comment => if b == '\n'.toUInt8 then b else ' '.toUInt8
  | .literal => '"'.toUInt8

/-- Overwrites a byte that has been marked, if it is to change. -/
def blankOne (out : List UInt8) (m : Mark) : Guarded (List UInt8) :=
  match m.kind.mode with
  | .code => return out
  | .comment => if m.byte == '\n'.toUInt8 then return out else put out m.index ' '.toUInt8
  | .literal => put out m.index '"'.toUInt8

/-- The bytes of a source, overwritten mark by mark. -/
def blank (bytes : List UInt8) : Guarded (List UInt8) := do
  (← marks bytes).foldlM blankOne bytes

theorem blankOne_eq (front rest : List UInt8) (b : UInt8) (kind : Kind) :
    blankOne (front ++ b :: rest) ⟨front.length, b, kind⟩ =
      .ok (front ++ shown b kind.mode :: rest) := by
  have hput : ∀ b', put (front ++ b :: rest) front.length b' = .ok (front ++ b' :: rest) := by
    intro b'
    simp [put]
  unfold blankOne
  cases hmode : kind.mode with
  | code => rfl
  | comment =>
    simp only [shown]
    split
    · rfl
    · exact hput _
  | literal => exact hput _

/-- Marks in the order of their bytes overwrite each byte once. -/
theorem foldlM_blankOne (front : List UInt8) {bytes : List UInt8} {kinds : List Kind}
    (h : bytes.length = kinds.length) :
    (zipMarks front.length bytes kinds).foldlM blankOne (front ++ bytes) =
      .ok (front ++ List.zipWith shown bytes (kinds.map Kind.mode)) := by
  induction bytes generalizing front kinds with
  | nil => simp [zipMarks]
  | cons b bytes ih =>
    cases kinds with
    | nil => cases h
    | cons kind kinds =>
      have hrest := ih (front ++ [shown b kind.mode]) (Nat.succ.inj h)
      rw [List.length_append, List.length_singleton] at hrest
      rw [zipMarks, List.foldlM_cons, blankOne_eq, Guarded.ok_bind, ← List.append_cons] at *
      simpa using hrest

theorem zipWith_spread {α β γ : Type} (f : α → β → γ) (as : List α) (b : β) (as' : List α)
    (bs : List β) :
    List.zipWith f (as ++ as') (List.replicate as.length b ++ bs) =
      as.map (f · b) ++ List.zipWith f as' bs := by
  rw [List.zipWith_append (by simp)]
  congr 1
  induction as with
  | nil => rfl
  | cons a as ih => rw [List.length_cons, List.replicate_succ, List.zipWith_cons_cons, ih]; rfl

/-- A character is masked as its bytes are. -/
theorem bytes_maskOne (c : Char) (mode : Mode) :
    (Text.maskOne c mode).bytes = (String.utf8EncodeChar c).map (shown · mode) := by
  have hrun : ∀ d : Char, String.utf8EncodeChar d = [d.toUInt8] → ∀ n,
      Text.bytes (List.replicate n d) = List.replicate n d.toUInt8 := by
    intro d hd n
    induction n with
    | zero => rfl
    | succ n ih =>
      rw [List.replicate_succ, List.replicate_succ, Text.bytes, List.flatMap_cons, hd]
      exact congrArg (_ :: ·) ih
  have hall : ∀ b', (∀ b ∈ String.utf8EncodeChar c, shown b mode = b') →
      (String.utf8EncodeChar c).map (shown · mode) = List.replicate c.utf8Size b' := by
    intro b' h
    rw [← String.length_utf8EncodeChar, List.eq_replicate_iff]
    simpa using h
  cases mode with
  | code => simp [Text.maskOne, Text.bytes, shown]
  | comment =>
    rw [Text.maskOne]
    split
    · rename_i hc
      rw [beq_iff_eq.mp hc]
      decide
    · rename_i hc
      rw [hrun _ (by decide), hall ' '.toUInt8 fun b hb => ?_]
      rw [shown, (spells_encoded hb).beq (by decide), if_neg hc]
  | literal => rw [Text.maskOne, hrun _ (by decide), hall '"'.toUInt8 fun b _ => rfl]

theorem bytes_maskWith {t : Text} {modes : List Mode} (h : modes.length = t.length) :
    (Text.maskWith t modes).bytes = List.zipWith shown t.bytes (t.spread modes) := by
  induction t generalizing modes with
  | nil => simp [Text.bytes]
  | cons c t ih =>
    cases modes with
    | nil => cases h
    | cons mode modes =>
      have hcons : Text.bytes (c :: t) = String.utf8EncodeChar c ++ Text.bytes t := rfl
      rw [Text.maskWith_cons, Text.bytes_append, ih (Nat.succ.inj h), bytes_maskOne, hcons,
        Text.spread_cons, ← String.length_utf8EncodeChar, zipWith_spread]

@[simp] theorem length_bytes (t : Text) : t.bytes.length = Text.size t := by
  rw [(spells_cells t).length_eq, Text.length_cells]

/-- The bytes of a text are taken for that text. -/
theorem fromUTF8?_bytes (t : Text) : String.fromUTF8? t.bytes.toByteArray = some (.ofList t) :=
  dif_pos (String.ofList t).isValidUTF8

/-- Whatever the source, its scan marks every byte once, in order, at its index and with its value.
The marks of one character are of one kind, of the mode of the character. Overwriting the bytes by
their marks gives the bytes of the masked text, so they are always taken for a text; it has as many
bytes as the source. In code they are the bytes of the source, in a comment blanks and the line
feeds, and in a literal quotes. The boundaries of the source are boundaries of the masked text. -/
theorem marks_faithful (t : Text) :
    ∃ (ms : List Mark) (kinds : List Kind) (out : List UInt8),
      marks t.bytes = .ok ms ∧
      ms.map Mark.index = List.range t.size ∧
      ms.map Mark.byte = t.bytes ∧
      kinds.map Kind.mode = t.modes ∧ ms.map Mark.kind = t.spread kinds ∧
      blank t.bytes = .ok out ∧
      String.fromUTF8? out.toByteArray = some (.ofList t.mask) ∧
      out.length = t.size ∧
      (∀ m ∈ ms, out[m.index]? = some (shown m.byte m.kind.mode)) ∧
      ∀ n, t.isBoundary n = true → t.mask.isBoundary n = true := by
  have hsound : (Place.code true).Sound := trivial
  have hcells := kinds_cells hsound (holds_zero _ .code t)
  have hlength : t.bytes.length = (kinds (.code true) 0 .code t.cells).length := by simp
  have hmodes : (kinds (.code true) 0 .code t).map Kind.mode = t.modes := mode_kinds ..
  have hmask : List.zipWith shown t.bytes
      ((kinds (.code true) 0 .code t.cells).map Kind.mode) = t.mask.bytes := by
    rw [hcells, ← Text.spread_map, hmodes, Text.mask_eq_maskWith, bytes_maskWith (by simp)]
  have hblank : blank t.bytes = .ok t.mask.bytes := by
    have := foldlM_blankOne [] hlength
    rw [blank, marks_eq, Guarded.ok_bind, ← hmask]
    simpa using this
  refine ⟨_, kinds (.code true) 0 .code t, _, marks_eq t, ?_, byte_zipMarks 0 hlength, hmodes,
    (kind_zipMarks 0 hlength).trans hcells, hblank, fromUTF8?_bytes t.mask, by simp, ?_,
    fun n hn => Text.isBoundary_mask hn⟩
  · rw [index_zipMarks 0 hlength, length_bytes, List.range_eq_range']
  · intro m hm
    obtain ⟨i, hindex, hbyte, hkind⟩ := of_mem_zipMarks hm
    rw [hindex, Nat.zero_add, ← hmask, List.getElem?_zipWith, hbyte, List.getElem?_map, hkind]
    rfl

end Bytes

end ClassRefactor
