import ClassRefactor.Proofs.Guarded.File
import ClassRefactor.Proofs.Text.Bytes

/-!
# Scanning bytes

The scan for comments and literals once more, now over the bytes of a source and by index: a turn
looks at the byte it has come to and at a few bytes ahead, marks one byte or several, and moves on
past them. Nothing in it knows where a character begins, and an escape jumps over one byte of
whatever follows the backslash, even if nothing does.

A turn marks the bytes that the scan of characters gives one mode, and moves just past them.
-/

namespace ClassRefactor

namespace Bytes

open Guarded (item)

/-- What a byte belongs to: code, one of two kinds of comment, or one of four kinds of literal. -/
inductive Kind where
  | code
  | lineComment
  | blockComment
  | string
  | verbatim
  /-- Text between so many quotes. -/
  | raw (quotes : Nat)
  | character
deriving DecidableEq, Repr

def Kind.mode : Kind → Mode
  | .code => .code
  | .lineComment => .comment
  | .blockComment => .comment
  | .string => .literal
  | .verbatim => .literal
  | .raw _ => .literal
  | .character => .literal

/-- A byte that the scan has marked, and where. -/
structure Mark where
  index : Nat
  byte : UInt8
  kind : Kind
deriving DecidableEq, Repr

/-- What the scan is in, and whether only blanks precede on the line. -/
structure State where
  kind : Kind := .code
  fresh : Bool := true
deriving DecidableEq, Repr

/-- The bytes from a position on. -/
def past (bytes : List UInt8) (pos : Nat) : Guarded (List UInt8) :=
  if pos ≤ bytes.length then .ok (bytes.drop pos) else .error (.outside pos)

/-- The number of quotes at the front of some bytes. -/
def quoteRun (bytes : List UInt8) : Nat := (bytes.takeWhile (· == '"'.toUInt8)).length

/-- The length of the mark that opens a verbatim string at the front of some bytes. -/
def verbatimMark (bytes : List UInt8) : Option Nat :=
  if ['@'.toUInt8, '"'.toUInt8].isPrefixOf bytes then some 2
  else if ['@'.toUInt8, '$'.toUInt8, '"'.toUInt8].isPrefixOf bytes ||
      ['$'.toUInt8, '@'.toUInt8, '"'.toUInt8].isPrefixOf bytes then some 3
  else none

/-- Marks so many bytes from a position on. -/
def markRun (bytes : List UInt8) (kind : Kind) : Nat → Nat → Guarded (List Mark)
  | 0, _ => return []
  | count + 1, pos => do
    let byte ← item bytes pos
    return ⟨pos, byte, kind⟩ :: (← markRun bytes kind count (pos + 1))

/-- The blanks that separate tokens, as bytes. -/
def isBlank (b : UInt8) : Bool :=
  b == ' '.toUInt8 || b == '\t'.toUInt8 || b == '\n'.toUInt8 || b == '\x0c'.toUInt8 ||
    b == '\r'.toUInt8

/-- What a turn marks, the state after it, and the position it moves to. -/
abbrev Outcome := List Mark × State × Nat

/-- A byte of a line comment. -/
def lineTurn (fresh : Bool) (pos : Nat) (b : UInt8) : Outcome :=
  ([⟨pos, b, .lineComment⟩],
    if b == '\n'.toUInt8 then ⟨.code, true⟩ else ⟨.lineComment, fresh⟩, pos + 1)

/-- A byte of code, or the first of what opens a comment or a literal. -/
def codeTurn (bytes : List UInt8) (fresh : Bool) (pos : Nat) (b : UInt8) : Guarded Outcome := do
  let next := bytes[pos + 1]?
  if (b == '/'.toUInt8 && next == some '/'.toUInt8) || (b == '#'.toUInt8 && fresh) then
    return lineTurn fresh pos b
  else if b == '/'.toUInt8 && next == some '*'.toUInt8 then
    return ([⟨pos, b, .blockComment⟩, ⟨pos + 1, '*'.toUInt8, .blockComment⟩],
      ⟨.blockComment, fresh⟩, pos + 2)
  else if let some n := verbatimMark (← past bytes pos) then
    return (← markRun bytes .verbatim n pos, ⟨.verbatim, false⟩, pos + n)
  else if b == '"'.toUInt8 || (b == '$'.toUInt8 && next == some '"'.toUInt8) then
    let start := if b == '$'.toUInt8 then pos + 1 else pos
    let quotes := quoteRun (← past bytes start)
    let (kind, count) :=
      if 3 ≤ quotes then (Kind.raw quotes, start - pos + quotes) else (.string, start - pos + 1)
    return (← markRun bytes kind count pos, ⟨kind, false⟩, pos + count)
  else if b == '\''.toUInt8 then
    return ([⟨pos, b, .character⟩], ⟨.character, false⟩, pos + 1)
  else
    return ([⟨pos, b, .code⟩],
      ⟨.code, if b == '\n'.toUInt8 then true else if isBlank b then fresh else false⟩, pos + 1)

/-- A byte of a string or of a character literal that `close` ends. -/
def quotedTurn (bytes : List UInt8) (s : State) (close : UInt8) (pos : Nat) (b : UInt8) :
    Outcome :=
  if b == '\\'.toUInt8 then
    (⟨pos, b, s.kind⟩ :: (bytes[pos + 1]?.map fun escaped => ⟨pos + 1, escaped, s.kind⟩).toList,
      s, pos + 2)
  else
    ([⟨pos, b, s.kind⟩],
      if b == close || b == '\n'.toUInt8 then ⟨.code, b == '\n'.toUInt8⟩ else s, pos + 1)

/-- The turn at a byte. -/
def turn (bytes : List UInt8) (s : State) (pos : Nat) (b : UInt8) : Guarded Outcome := do
  let next := bytes[pos + 1]?
  match s.kind with
  | .code => codeTurn bytes s.fresh pos b
  | .lineComment => return lineTurn s.fresh pos b
  | .blockComment =>
    if b == '*'.toUInt8 && next == some '/'.toUInt8 then
      return ([⟨pos, b, .blockComment⟩, ⟨pos + 1, '/'.toUInt8, .blockComment⟩],
        { s with kind := .code }, pos + 2)
    else return ([⟨pos, b, .blockComment⟩], s, pos + 1)
  | .string => return quotedTurn bytes s '"'.toUInt8 pos b
  | .character => return quotedTurn bytes s '\''.toUInt8 pos b
  | .verbatim =>
    if b == '"'.toUInt8 then
      if next == some '"'.toUInt8 then
        return ([⟨pos, b, .verbatim⟩, ⟨pos + 1, '"'.toUInt8, .verbatim⟩], s, pos + 2)
      else return ([⟨pos, b, .verbatim⟩], { s with kind := .code }, pos + 1)
    else return ([⟨pos, b, .verbatim⟩], s, pos + 1)
  | .raw quotes =>
    if quotes ≤ quoteRun (← past bytes pos) then
      return ((List.range quotes).map fun i => ⟨pos + i, '"'.toUInt8, .raw quotes⟩,
        { s with kind := .code }, pos + quotes)
    else return ([⟨pos, b, .raw quotes⟩], s, pos + 1)

/-- The marks that are set from a position on. -/
def marksFrom (bytes : List UInt8) (s : State) (pos : Nat) : Guarded (List Mark) :=
  if pos < bytes.length then do
    let (marks, s, next) ← turn bytes s pos (← item bytes pos)
    if pos < next then return marks ++ (← marksFrom bytes s next) else throw (.stalled pos)
  else return []
termination_by bytes.length - pos

/-- The marks that the scan of a source sets, in the order in which it does. -/
def marks (bytes : List UInt8) : Guarded (List Mark) := marksFrom bytes {} 0

/-! ## Bytes and the characters they belong to -/

/-- A byte of a character: a character of one byte is that byte, and the bytes of the others lie
outside ASCII. -/
def Spells (b : UInt8) (c : Char) : Prop :=
  if c.utf8Size = 1 then b = c.toUInt8 else 0x80 ≤ b.toNat

theorem toNat_toUInt8 {c : Char} (hc : c.utf8Size = 1) :
    c.toUInt8.toNat = c.toNat ∧ c.toNat < 0x80 := by
  have hle := UInt32.le_iff_toNat_le.mp (Char.utf8Size_eq_one_iff.mp hc)
  have hlt : c.val.toNat < 0x80 := Nat.lt_succ_of_le hle
  exact ⟨(UInt32.toNat_toUInt8 _).trans (Nat.mod_eq_of_lt (by omega)), hlt⟩

/-- A scan looks for characters of one byte only, so it can look for their bytes. -/
theorem Spells.beq {b : UInt8} {c d : Char} (h : Spells b c) (hd : d.utf8Size = 1) :
    (b == d.toUInt8) = (c == d) := by
  obtain ⟨hdval, hdlt⟩ := toNat_toUInt8 hd
  rw [Bool.eq_iff_iff, beq_iff_eq, beq_iff_eq]
  unfold Spells at h
  split at h
  · rename_i hc
    obtain ⟨hcval, -⟩ := toNat_toUInt8 hc
    rw [h, ← UInt8.toNat_inj, hcval, hdval, Char.toNat_inj]
  · rename_i hc
    refine ⟨fun heq => ?_, fun heq => absurd (heq ▸ hd) hc⟩
    rw [heq, hdval] at h
    omega

theorem spells_encoded {c : Char} {b : UInt8} (h : b ∈ String.utf8EncodeChar c) : Spells b c := by
  unfold Spells
  by_cases hc : c.utf8Size = 1
  · have hle : c.val.toNat ≤ 127 := UInt32.le_iff_toNat_le.mp (Char.utf8Size_eq_one_iff.mp hc)
    simp only [String.utf8EncodeChar, hle, if_true, List.mem_singleton] at h
    rw [if_pos hc, h]
    rfl
  · have hgt : ¬c.val.toNat ≤ 127 := fun hle =>
      hc (Char.utf8Size_eq_one_iff.mpr (UInt32.le_iff_toNat_le.mpr hle))
    rw [if_neg hc]
    simp only [String.utf8EncodeChar, hgt, if_false] at h
    split_ifs at h <;> simp only [List.mem_cons, List.not_mem_nil, or_false] at h
    · rcases h with h | h <;> rw [h, UInt8.toNat_ofNat'] <;> omega
    · rcases h with h | h | h <;> rw [h, UInt8.toNat_ofNat'] <;> omega
    · rcases h with h | h | h | h <;> rw [h, UInt8.toNat_ofNat'] <;> omega

theorem spells_cells (t : Text) : List.Forall₂ Spells t.bytes t.cells := by
  induction t with
  | nil => exact .nil
  | cons c t ih =>
    rw [Text.bytes, List.flatMap_cons, Text.cells_cons]
    refine List.rel_append (R := Spells) ?_ ih
    rw [← String.length_utf8EncodeChar, List.forall₂_iff_get]
    exact ⟨by simp, fun i hi _ => by simpa using spells_encoded (List.getElem_mem hi)⟩

/-! What a turn sees ahead. -/

section

variable {bytes rest : List UInt8} {ahead : Code}

theorem beq_head? (h : List.Forall₂ Spells rest ahead) {d : Char} (hd : d.utf8Size = 1) :
    (rest.head? == some d.toUInt8) = (ahead.head? == some d) := by
  cases h with
  | nil => rfl
  | cons hb _ => exact hb.beq hd

theorem quoteRun_eq (h : List.Forall₂ Spells rest ahead) :
    quoteRun rest = Place.quoteRun ahead := by
  induction h with
  | nil => rfl
  | @cons b c rest ahead hb _ ih =>
    rw [quoteRun_cons, ← ih, quoteRun, List.takeWhile_cons, hb.beq (by decide)]
    cases c == '"' <;> rfl

theorem beq_tail_head? (h : List.Forall₂ Spells rest ahead) {d : Char} (hd : d.utf8Size = 1) :
    (rest.tail.head? == some d.toUInt8) = (ahead.tail.head? == some d) := by
  cases h with
  | nil => rfl
  | cons _ h => exact beq_head? h hd

theorem verbatimMark_eq {b : UInt8} {c : Char} (hb : Spells b c)
    (h : List.Forall₂ Spells rest ahead) :
    verbatimMark (b :: rest) = Place.verbatimMark (c :: ahead) := by
  have two : ∀ d e : Char, d.utf8Size = 1 → e.utf8Size = 1 →
      ([d.toUInt8, e.toUInt8].isPrefixOf (b :: rest) = true ↔ c = d ∧ ahead.head? = some e) := by
    intro d e hd he
    have hhead := beq_head? h he
    rw [List.isPrefixOf_cons_cons, Bool.beq_comm, hb.beq hd, ← beq_iff_eq (b := some e), ← hhead]
    cases rest <;> simp [Bool.beq_comm, List.isPrefixOf]
  have three : ∀ d e f : Char, d.utf8Size = 1 → e.utf8Size = 1 → f.utf8Size = 1 →
      ([d.toUInt8, e.toUInt8, f.toUInt8].isPrefixOf (b :: rest) = true ↔
        c = d ∧ ahead.head? = some e ∧ ahead.tail.head? = some f) := by
    intro d e f hd he hf
    have hhead := beq_head? h he
    have htail := beq_tail_head? h hf
    rw [List.isPrefixOf_cons_cons, Bool.beq_comm, hb.beq hd, ← beq_iff_eq (b := some e), ← hhead,
      ← beq_iff_eq (b := some f), ← htail]
    rcases rest with _ | ⟨b', _ | ⟨b'', rest⟩⟩ <;> simp [Bool.beq_comm, List.isPrefixOf]
  have hquote : ('"' : Char).utf8Size = 1 := by decide
  have hat : ('@' : Char).utf8Size = 1 := by decide
  have hdollar : ('$' : Char).utf8Size = 1 := by decide
  simp only [verbatimMark, verbatimMark_cons, Bool.or_eq_true, two _ _ hat hquote,
    three _ _ _ hat hdollar hquote, three _ _ _ hdollar hat hquote]
  split_ifs <;> first | rfl | tauto

end

/-! ## The two scans in step -/

/-- The kind of what is read at a place. -/
def kindAt : Place → Kind
  | .code _ => .code
  | .lineComment => .lineComment
  | .blockComment _ => .blockComment
  | .quoted close => if close == '"' then .string else .character
  | .verbatim => .verbatim
  | .raw quotes => .raw quotes

/-- The kind of a character that is read at one place and leads to the next. What opens a comment or
a literal belongs to it. -/
def kindRead (place next : Place) : Kind :=
  match place with
  | .code _ => kindAt next
  | _ => kindAt place

/-- Where the scan of characters stands when the scan of bytes is in a state. No byte precedes on
the line of what follows a verbatim or raw string. -/
inductive Stands : State → Place → Prop
  | code (fresh : Bool) : Stands ⟨.code, fresh⟩ (.code fresh)
  | lineComment (fresh : Bool) : Stands ⟨.lineComment, fresh⟩ .lineComment
  | blockComment (fresh : Bool) : Stands ⟨.blockComment, fresh⟩ (.blockComment fresh)
  | string (fresh : Bool) : Stands ⟨.string, fresh⟩ (.quoted '"')
  | character (fresh : Bool) : Stands ⟨.character, fresh⟩ (.quoted '\'')
  | verbatim : Stands ⟨.verbatim, false⟩ .verbatim
  | raw (quotes : Nat) (h : 0 < quotes) : Stands ⟨.raw quotes, false⟩ (.raw quotes)

theorem Stands.kindAt {s : State} {place : Place} (h : Stands s place) : kindAt place = s.kind := by
  cases h <;> rfl

/-- Marks for bytes from a position on, each with its kind. -/
def zipMarks : Nat → List UInt8 → List Kind → List Mark
  | pos, b :: bytes, kind :: kinds => ⟨pos, b, kind⟩ :: zipMarks (pos + 1) bytes kinds
  | _, _, _ => []

theorem verbatimMark_bounds {t : Text} {n : Nat} (h : Place.verbatimMark t = some n) :
    0 < n ∧ n ≤ t.length := by
  refine ⟨?_, (Place.verbatimMark_spec h).le⟩
  unfold Place.verbatimMark at h
  split at h <;> cases h <;> decide

theorem take_quoteRun {bytes : List UInt8} {n : Nat} (h : n ≤ quoteRun bytes) :
    bytes.take n = List.replicate n '"'.toUInt8 := by
  have hprefix := List.takeWhile_prefix (· == '"'.toUInt8) (l := bytes)
  refine List.eq_replicate_iff.mpr ⟨List.length_take_of_le (Nat.le_trans h hprefix.length_le), ?_⟩
  intro b hb
  have hrun : b ∈ bytes.takeWhile (· == '"'.toUInt8) := by
    rw [List.prefix_iff_eq_take.mp hprefix]
    exact List.take_subset_take_left bytes h hb
  simpa using List.all_eq_true.mp List.all_takeWhile b hrun

theorem zipMarks_replicate (pos n : Nat) (b : UInt8) (kind : Kind) :
    zipMarks pos (List.replicate n b) (List.replicate n kind) =
      (List.range n).map fun i => ⟨pos + i, b, kind⟩ := by
  induction n generalizing pos with
  | zero => rfl
  | succ n ih =>
    rw [List.replicate_succ, List.replicate_succ, zipMarks, ih, List.range_succ_eq_map,
      List.map_cons, List.map_map]
    simp [Function.comp_def, Nat.add_assoc, Nat.add_comm 1]

section

variable {bytes rest : List UInt8} {ahead : Code} {pos : Nat} {b : UInt8} {c : Char}

theorem markRun_eq (kind : Kind) {count : Nat} (h : count ≤ (bytes.drop pos).length) :
    markRun bytes kind count pos =
      .ok (zipMarks pos ((bytes.drop pos).take count) (List.replicate count kind)) := by
  induction count generalizing pos with
  | zero => simp [markRun, zipMarks]
  | succ count ih =>
    rw [List.length_drop] at h
    have hlt : pos < bytes.length := by omega
    have hitem : item bytes pos = .ok bytes[pos] := by simp [item, hlt]
    rw [markRun, hitem, Guarded.ok_bind, ih (by rw [List.length_drop]; omega),
      List.drop_eq_getElem_cons hlt]
    rfl

variable (hdrop : bytes.drop pos = b :: rest)
include hdrop

theorem past_eq : past bytes pos = .ok (b :: rest) := by
  have hlength := congrArg List.length hdrop
  rw [List.length_drop, List.length_cons] at hlength
  rw [past, if_pos (by omega), hdrop]

theorem drop_succ : bytes.drop (pos + 1) = rest := by
  rw [← List.drop_drop, hdrop, List.drop_one, List.tail_cons]

theorem past_succ_eq : past bytes (pos + 1) = .ok rest := by
  have hlength := congrArg List.length hdrop
  rw [List.length_drop, List.length_cons] at hlength
  rw [past, if_pos (by omega), drop_succ hdrop]

theorem getElem?_succ : bytes[pos + 1]? = rest.head? := by
  rw [← drop_succ hdrop, List.head?_drop]

/-- The next byte is looked at as the next character is. -/
theorem beq_next (hahead : List.Forall₂ Spells rest ahead) {d : Char} (hd : d.utf8Size = 1) :
    (bytes[pos + 1]? == some d.toUInt8) = (ahead.head? == some d) := by
  rw [getElem?_succ hdrop, beq_head? hahead hd]

omit hdrop in
/-- A turn at the first of some bytes does what the scan of characters does with the first character
that is left: it marks so many bytes, all with the kind of that character, and moves past them. -/
def InStep (pos : Nat) (left : List UInt8) (place : Place) (read : Mode × Nat × Place)
    (outcome : Guarded Outcome) : Prop :=
  ∃ s', outcome = .ok (zipMarks pos (left.take (read.2.1 + 1))
      (List.replicate (read.2.1 + 1) (kindRead place read.2.2)), s', pos + (read.2.1 + 1)) ∧
    Stands s' read.2.2

namespace InStep

variable {place next : Place} {mode : Mode} {s' : State}

omit hdrop in
theorem one (h : Stands s' next) :
    InStep pos (b :: rest) place (mode, 0, next)
      (.ok ([⟨pos, b, kindRead place next⟩], s', pos + 1)) :=
  ⟨s', rfl, h⟩

omit hdrop in
theorem two {b' : UInt8} (h : Stands s' next) (hhead : rest.head? = some b') :
    InStep pos (b :: rest) place (mode, 1, next)
      (.ok ([⟨pos, b, kindRead place next⟩, ⟨pos + 1, b', kindRead place next⟩], s', pos + 2)) := by
  obtain ⟨rest, rfl⟩ := List.head?_eq_some_iff.mp hhead
  exact ⟨s', rfl, h⟩

theorem run {held count : Nat} (h : Stands s' next) (hcount : count = held + 1)
    (hheld : held ≤ rest.length) :
    InStep pos (b :: rest) place (mode, held, next)
      (do return (← markRun bytes (kindRead place next) count pos, s', pos + count)) := by
  rw [hcount, markRun_eq _ (by rw [hdrop, List.length_cons]; omega), hdrop]
  exact ⟨s', rfl, h⟩

end InStep

variable (hb : Spells b c) (hahead : List.Forall₂ Spells rest ahead)
include hb hahead

omit hahead in
theorem quotedTurn_spec {s : State} {close : Char} (hs : Stands s (.quoted close))
    (hclose : close.utf8Size = 1) :
    InStep pos (b :: rest) (.quoted close)
      (if c == '\\' then (.literal, 1, .quoted close)
        else (.literal, 0, if c == close || c == '\n' then .code (c == '\n') else .quoted close))
      (.ok (quotedTurn bytes s close.toUInt8 pos b)) := by
  have hkind : s.kind = kindRead (.quoted close) (.quoted close) := hs.kindAt.symm
  simp only [quotedTurn, hb.beq (d := '\\') (by decide), hb.beq hclose,
    hb.beq (d := '\n') (by decide), getElem?_succ hdrop, hkind]
  by_cases hescape : (c == '\\') = true
  · rw [if_pos hescape, if_pos hescape]
    -- There may be no byte to escape; the next position is past the end then.
    cases rest <;> exact ⟨s, rfl, hs⟩
  rw [if_neg hescape, if_neg hescape]
  cases c == close || c == '\n' with
  | true => exact .one (.code _)
  | false => exact .one hs

/-- A string opens with its quotes, and with the dollar before them. -/
theorem stringTurn_spec (fresh : Bool)
    (h : (c == '"' || c == '$' && ahead.head? == some '"') = true) :
    InStep pos (b :: rest) (.code fresh)
      (let dollar := if c == '$' then 1 else 0
        let quotes := Place.quoteRun ((c :: ahead).drop dollar)
        if 3 ≤ quotes then (.literal, dollar + quotes - 1, .raw quotes)
        else (.literal, dollar, .quoted '"'))
      (do
        let start := if c == '$' then pos + 1 else pos
        let quotes := quoteRun (← past bytes start)
        let (kind, count) :=
          if 3 ≤ quotes then (Kind.raw quotes, start - pos + quotes)
          else (.string, start - pos + 1)
        return (← markRun bytes kind count pos, ⟨kind, false⟩, pos + count)) := by
  have hlength := hahead.length_eq
  have hopens : ∀ {quotes : Nat}, quotes ≤ Place.quoteRun (c :: ahead) → quotes ≤ rest.length + 1 :=
    fun hle => by
      have := (Place.quoteRun_spec hle).le
      simpa [hlength] using this
  by_cases hdollar : (c == '$') = true
  · have hhead : ahead.head? = some '"' := by
      have hc : (c == '"') = false := by
        rw [beq_iff_eq] at hdollar
        rw [hdollar]
        decide
      simpa [hc, hdollar] using h
    have hle := (Place.quoteRun_spec (Nat.le_refl (Place.quoteRun ahead))).le
    simp only [hdollar, if_true, past_succ_eq hdrop, Guarded.ok_bind, quoteRun_eq hahead,
      Nat.add_sub_cancel_left, List.drop_succ_cons, List.drop_zero]
    by_cases hraw : 3 ≤ Place.quoteRun ahead
    · simp only [hraw, if_true]
      exact .run hdrop (.raw _ (by omega)) (by omega) (by omega)
    · simp only [hraw, if_false]
      have hone := (Place.narrow_of_head hhead (by decide)).le
      exact .run hdrop (.string false) rfl (by omega)
  · simp only [hdollar, if_false, past_eq hdrop, Guarded.ok_bind, Bool.false_eq_true,
      quoteRun_eq (.cons hb hahead), Nat.sub_self, Nat.zero_add, List.drop_zero]
    by_cases hraw : 3 ≤ Place.quoteRun (c :: ahead)
    · have := hopens (Nat.le_refl _)
      simp only [hraw, if_true]
      exact .run hdrop (.raw _ (by omega)) (by omega) (by omega)
    · simp only [hraw, if_false]
      exact .run hdrop (.string false) rfl (Nat.zero_le _)

theorem codeTurn_spec (fresh : Bool) :
    InStep pos (b :: rest) (.code fresh) (Place.step (.code fresh) c ahead)
      (codeTurn bytes fresh pos b) := by
  have hsound : (Place.code fresh).Sound := trivial
  have hled := Place.led_step hsound c ahead
  have hlength := hahead.length_eq
  have hone : ∀ d : Char, d.utf8Size = 1 → (b == d.toUInt8) = (c == d) := fun _ => hb.beq
  have hnext : ∀ d : Char, d.utf8Size = 1 →
      (bytes[pos + 1]? == some d.toUInt8) = (ahead.head? == some d) := fun _ => beq_next hdrop hahead
  have hblank : isBlank b = isLayoutBlank c := by
    simp only [isBlank, isLayoutBlank, hone ' ' (by decide), hone '\t' (by decide),
      hone '\n' (by decide), hone '\x0c' (by decide), hone '\r' (by decide)]
  simp only [Place.step, Place.stepCode] at hled ⊢
  simp only [codeTurn, past_eq hdrop, Guarded.ok_bind,
    verbatimMark_eq hb hahead, hone '/' (by decide), hone '#' (by decide), hone '"' (by decide),
    hone '$' (by decide), hone '\'' (by decide), hone '\n' (by decide), hnext '/' (by decide),
    hnext '*' (by decide), hnext '"' (by decide), hblank, opensString_cons]
  by_cases hline : (c == '/' && ahead.head? == some '/' || c == '#' && fresh) = true
  · have hfeed : (b == '\n'.toUInt8) = false := by
      rw [hone _ (by decide), beq_eq_false_iff_ne]
      rintro rfl
      exact absurd hline (by simp)
    rw [if_pos hline, if_pos hline, lineTurn, hfeed]
    exact .one (.lineComment fresh)
  rw [if_neg hline, if_neg hline]
  by_cases hblock : (c == '/' && ahead.head? == some '*') = true
  · rw [if_pos hblock, if_pos hblock]
    simp only [Bool.and_eq_true, ← beq_head? hahead (d := '*') (by decide), beq_iff_eq] at hblock
    exact .two (.blockComment fresh) hblock.2
  rw [if_neg hblock, if_neg hblock]
  cases hmark : Place.verbatimMark (c :: ahead) with
  | some n =>
    obtain ⟨hpos, hle⟩ := verbatimMark_bounds hmark
    simp only
    exact .run hdrop .verbatim (by omega) (by simp only [List.length_cons] at hle; omega)
  | none =>
    simp only
    by_cases hstring : (c == '"' || c == '$' && ahead.head? == some '"') = true
    · rw [if_pos hstring, if_pos hstring]
      exact stringTurn_spec hdrop hb hahead fresh hstring
    rw [if_neg hstring, if_neg hstring]
    by_cases hquote : (c == '\'') = true
    · rw [if_pos hquote, if_pos hquote]
      exact .one (.character false)
    rw [if_neg hquote, if_neg hquote]
    have hfresh : (if (c == '\n') = true then true else if isLayoutBlank c = true then fresh
        else false) = (c == '\n' || isLayoutBlank c && fresh) := by
      cases c == '\n' <;> cases isLayoutBlank c <;> rfl
    rw [hfresh]
    exact .one (.code _)

theorem turn_spec {s : State} {place : Place} (hs : Stands s place) :
    InStep pos (b :: rest) place (place.step c ahead) (turn bytes s pos b) := by
  have hone : ∀ d : Char, d.utf8Size = 1 → (b == d.toUInt8) = (c == d) := fun _ => hb.beq
  have hnext : ∀ d : Char, d.utf8Size = 1 →
      (bytes[pos + 1]? == some d.toUInt8) = (ahead.head? == some d) := fun _ => beq_next hdrop hahead
  have hhead : ∀ d : Char, d.utf8Size = 1 → (ahead.head? == some d) = true →
      rest.head? = some d.toUInt8 := fun d hd h => by
    rwa [← beq_head? hahead hd, beq_iff_eq] at h
  cases hs with
  | code fresh => exact codeTurn_spec hdrop hb hahead fresh
  | lineComment fresh =>
    simp only [Place.step, turn, lineTurn, hone '\n' (by decide)]
    cases c == '\n' with
    | true => exact .one (.code true)
    | false => exact .one (.lineComment fresh)
  | blockComment fresh =>
    simp only [Place.step, turn, hone '*' (by decide), hnext '/' (by decide)]
    by_cases hclose : (c == '*' && ahead.head? == some '/') = true
    · rw [if_pos hclose, if_pos hclose]
      exact .two (.code fresh) (hhead '/' (by decide) (Bool.and_eq_true_iff.mp hclose).2)
    · rw [if_neg hclose, if_neg hclose]
      exact .one (.blockComment fresh)
  | string fresh =>
    simp only [Place.step, turn]
    exact quotedTurn_spec hdrop hb (.string fresh) (by decide)
  | character fresh =>
    simp only [Place.step, turn]
    exact quotedTurn_spec hdrop hb (.character fresh) (by decide)
  | verbatim =>
    simp only [Place.step, turn, hone '"' (by decide), hnext '"' (by decide)]
    by_cases hquote : (c == '"') = true
    · rw [if_pos hquote, if_pos hquote]
      by_cases hdouble : (ahead.head? == some '"') = true
      · rw [if_pos hdouble, if_pos hdouble]
        exact .two .verbatim (hhead '"' (by decide) hdouble)
      · rw [if_neg hdouble, if_neg hdouble]
        exact .one (.code false)
    · rw [if_neg hquote, if_neg hquote]
      exact .one .verbatim
  | raw quotes hpos =>
    simp only [Place.step, turn, past_eq hdrop, Guarded.ok_bind, quoteRun_eq (.cons hb hahead)]
    by_cases hclose : quotes ≤ Place.quoteRun (c :: ahead)
    · rw [if_pos hclose, if_pos hclose]
      have hrun := take_quoteRun (quoteRun_eq (.cons hb hahead) ▸ hclose)
      have hmarks := zipMarks_replicate pos quotes '"'.toUInt8 (.raw quotes)
      rw [← hrun] at hmarks
      refine ⟨_, ?_, .code false⟩
      simp only [Nat.sub_add_cancel hpos, kindRead, kindAt, hmarks]
      rfl
    · rw [if_neg hclose, if_neg hclose]
      exact .one (.raw quotes hpos)

end

end Bytes

end ClassRefactor
