import ClassRefactor.Proofs.Bytes.Blank

/-!
# Whole words among bytes

Which words stand whole in a text is a question about its bytes: whether those of the word stand
somewhere, with no identifier byte directly before or behind them. The search looks at cells, and
goes on behind each occurrence, whole or not. It misses nothing all the same.

A whole word begins and ends between characters, since what stands beside it is within ASCII, and
from there on bytes and cells tell the same characters.
-/

namespace ClassRefactor

/-- If what stands for a character never begins what stands for another one, initial segments are
initial segments of the characters. -/
theorem flatMap_prefix_iff {α β : Type} {f : α → List β} (hne : ∀ a, f a ≠ [])
    (hcode : ∀ {a b u v}, f a ++ u = f b ++ v → a = b) {s t : List α} :
    s.flatMap f <+: t.flatMap f ↔ s <+: t := by
  constructor
  · intro h
    induction s generalizing t with
    | nil => exact List.nil_prefix
    | cons a s ih =>
      obtain ⟨rest, hrest⟩ := h
      cases t with
      | nil => simp [hne] at hrest
      | cons b t =>
        rw [List.flatMap_cons, List.flatMap_cons, List.append_assoc] at hrest
        obtain rfl := hcode hrest
        exact List.cons_prefix_cons.mpr ⟨rfl, ih ⟨rest, List.append_cancel_left hrest⟩⟩
  · rintro ⟨u, rfl⟩
    rw [List.flatMap_append]
    exact List.prefix_append _ _

namespace Text

theorem bytes_prefix_iff {s t : Text} : s.bytes <+: t.bytes ↔ s <+: t := by
  refine flatMap_prefix_iff (fun c h => ?_) fun {c d u v} h => ?_
  · have := String.length_utf8EncodeChar c
    rw [h] at this
    exact absurd this.symm (Nat.ne_of_gt c.utf8Size_pos)
  · rcases Std.lt_trichotomy c d with hlt | heq | hgt
    · exact absurd (h ▸ utf8EncodeChar_append_lt hlt u v) (List.lt_irrefl _)
    · exact heq
    · exact absurd (h ▸ utf8EncodeChar_append_lt hgt v u) (List.lt_irrefl _)

theorem cells_prefix_iff {s t : Text} : s.cells <+: t.cells ↔ s <+: t := by
  have hcell : ∀ c : Char, ∃ n, List.replicate c.utf8Size c = c :: List.replicate n c := fun c =>
    ⟨c.utf8Size - 1, by rw [← List.replicate_succ, Nat.sub_add_cancel c.utf8Size_pos]⟩
  refine flatMap_prefix_iff (fun c h => ?_) fun {c d u v} h => ?_
  · obtain ⟨n, hn⟩ := hcell c
    rw [hn] at h
    cases h
  · obtain ⟨n, hn⟩ := hcell c
    obtain ⟨m, hm⟩ := hcell d
    rw [hn, hm] at h
    exact (List.cons.inj h).1

theorem cells_ne_nil {t : Text} (h : t ≠ []) : t.cells ≠ [] := by
  obtain ⟨c, hc⟩ := List.exists_mem_of_ne_nil t h
  exact List.ne_nil_of_mem (mem_cells.mpr hc)

end Text

namespace Bytes

/-- Letters, digits, `_`, `@`, and every byte outside ASCII belong to identifiers. -/
def isIdent (b : UInt8) : Bool :=
  ('a'.toUInt8 ≤ b && b ≤ 'z'.toUInt8) || ('A'.toUInt8 ≤ b && b ≤ 'Z'.toUInt8) ||
    ('0'.toUInt8 ≤ b && b ≤ '9'.toUInt8) || b == '_'.toUInt8 || b == '@'.toUInt8 || 0x80 ≤ b

/-- The bytes of a word stand at an index, and no identifier byte stands directly before or behind
them. -/
structure WholeAt (word bytes : List UInt8) (i : Nat) : Prop where
  shows : (bytes.drop i).take word.length = word
  before : 0 < i → ∀ b, bytes[i - 1]? = some b → isIdent b = false
  after : ∀ b, bytes[i + word.length]? = some b → isIdent b = false

theorem utf8Size_eq_one {c : Char} (h : c.toNat < 0x80) : c.utf8Size = 1 :=
  Char.utf8Size_eq_one_iff.mpr (UInt32.le_iff_toNat_le.mpr (Nat.le_of_lt_succ h))

/-- Within ASCII the two classes are compared character by character; outside it all belongs to
identifiers, for bytes as for cells. -/
theorem isIdent_eq {b : UInt8} {c : Char} (h : Spells b c) : isIdent b = isIdentCell c := by
  unfold Spells at h
  split at h
  · rename_i hc
    have hascii : ∀ n < 0x80, isIdent (Char.ofNat n).toUInt8 = isIdentCell (Char.ofNat n) := by
      decide
    rw [h, ← Char.ofNat_toNat c]
    exact hascii _ (toNat_toUInt8 hc).2
  · rename_i hc
    have hcell : 0x80 ≤ c.toNat := Nat.le_of_not_lt fun hlt => hc (utf8Size_eq_one hlt)
    have hbyte : (0x80 : UInt8) ≤ b := UInt8.le_iff_toNat_le.mpr h
    simp [isIdent, isIdentCell, hcell, hbyte]

/-- A cell that is no identifier cell is within ASCII. -/
theorem utf8Size_of_not_isIdentCell {c : Char} (h : isIdentCell c = false) : c.utf8Size = 1 := by
  simp only [isIdentCell, Bool.or_eq_false_iff, decide_eq_false_iff_not] at h
  exact utf8Size_eq_one (Nat.lt_of_not_le h.2)

theorem isBreak_iff {bytes : List UInt8} {code : Code} (h : List.Forall₂ Spells bytes code)
    (i : Nat) : code.isBreak i = true ↔ ∀ b, bytes[i]? = some b → isIdent b = false := by
  induction h generalizing i with
  | nil => simp [Code.isBreak]
  | cons hb _ ih =>
    cases i with
    | zero => simp [Code.isBreak, isIdent_eq hb]
    | succ i => simpa [Code.isBreak] using ih i

/-- Behind a cell that is no identifier cell begins a character. -/
theorem isBoundary_of_isBreak {t : Text} {i : Nat} (hi : i ≤ t.size)
    (h : 0 < i → Code.isBreak t.cells (i - 1) = true) : t.isBoundary i = true := by
  rcases Nat.eq_zero_or_pos i with rfl | hpos
  · exact Text.isBoundary_zero t
  · have hlt : i - 1 < t.cells.length := by
      rw [Text.length_cells]
      omega
    have hcell := List.getElem?_eq_getElem hlt
    have hident := h hpos
    rw [Code.isBreak_of_getElem? hcell, Bool.not_eq_true'] at hident
    have := (Text.isBoundary_of_ascii_cell hcell (utf8Size_of_not_isIdentCell hident)).2
    rwa [Nat.sub_add_cancel hpos] at this

/-- From between two characters on, bytes and cells show the same words. -/
theorem shows_iff {word t : Text} {i : Nat} (hi : t.isBoundary i = true) :
    (t.bytes.drop i).take word.bytes.length = word.bytes ↔ Code.Shows t.cells i word.cells := by
  obtain ⟨s, u, rfl, rfl⟩ := Text.isBoundary_iff.mp hi
  rw [Text.bytes_append, List.drop_left' (length_bytes s), Code.Shows, Text.cells_drop_size,
    Text.cells_prefix_iff, ← Text.bytes_prefix_iff, List.prefix_iff_eq_take, eq_comm]

theorem wholeAt_iff {word t : Text} (hne : word ≠ []) {i : Nat} :
    WholeAt word.bytes t.bytes i ↔ Code.WholeAt word.cells t.cells i := by
  have hbreak := isBreak_iff (spells_cells t)
  have hcells := Text.cells_ne_nil hne
  have hpos : 0 < word.size := Text.length_cells word ▸ List.length_pos_of_ne_nil hcells
  constructor
  · rintro ⟨hshows, hbefore, hafter⟩
    have hbefore : 0 < i → Code.isBreak t.cells (i - 1) = true := fun h =>
      (hbreak _).mpr (hbefore h)
    have hi : i ≤ t.size := by
      have := congrArg List.length hshows
      simp only [List.length_take, List.length_drop, length_bytes] at this
      omega
    refine ⟨(shows_iff (isBoundary_of_isBreak hi hbefore)).mp hshows, ?_, ?_⟩
    · exact (Nat.eq_zero_or_pos i).imp_right hbefore
    · rw [hbreak, Text.length_cells, ← length_bytes]
      exact hafter
  · rintro ⟨hshows, hbefore, hafter⟩
    have hbefore : 0 < i → Code.isBreak t.cells (i - 1) = true := fun h =>
      hbefore.resolve_left (Nat.ne_of_gt h)
    have hi : i ≤ t.size := by
      have := hshows.length_le hcells
      simp only [Text.length_cells] at this
      omega
    refine ⟨(shows_iff (isBoundary_of_isBreak hi hbefore)).mpr hshows, ?_, ?_⟩
    · exact fun h => (hbreak _).mp (hbefore h)
    · rw [hbreak, Text.length_cells, ← length_bytes] at hafter
      exact hafter

/-- A non-empty word of identifier bytes is found in a text iff its bytes stand somewhere in those of
the text with no identifier byte directly before or behind them. And the search for classes, which
goes on behind each `class` it comes to, whole or not, tries the whole ones of the masked text, all
of them, in order, and nothing else. -/
theorem whole_words_found {word : Text} (hne : word ≠ [])
    (hword : ∀ b ∈ word.bytes, isIdent b = true) (t : Text) :
    (Code.containsWord word.cells t.cells = true ↔ ∃ i, WholeAt word.bytes t.bytes i) ∧
      ∃ keywords file, Guarded.wordPositions "class".toList t.mask 0 = .ok keywords ∧
        keywords.Pairwise (· < ·) ∧
        (∀ i, i ∈ keywords ↔ WholeAt (Text.bytes "class".toList) t.mask.bytes i) ∧
        SourceFile.parse t = .ok file ∧
        file.classes.map ParsedClass.layout = keywords.filterMap (Code.classAt? t.mask.cells) := by
  have hcells : ∀ c ∈ word.cells, isIdentCell c = true := fun c hc => by
    obtain ⟨b, hb, hspells⟩ := exists_of_forall₂_right (spells_cells word) hc
    rw [← isIdent_eq hspells]
    exact hword b hb
  have hclass : "class".toList ≠ [] ∧ (∀ c ∈ "class".toList, isIdentCell c = true) ∧
      (∀ c ∈ "class".toList, c.utf8Size = 1) ∧ Text.cells "class".toList = "class".toList := by
    decide
  obtain ⟨hclass_ne, hclass_ident, hclass_ascii, hclass_cells⟩ := hclass
  obtain ⟨file, hfile⟩ := SourceFile.exists_parse t
  refine ⟨?_, Code.wordPositions "class".toList t.mask.cells, file,
    Guarded.wordPositions_eq hclass_ne hclass_ascii t.mask,
    (Code.pairwise_occurrencesFrom _ _ _ _).filter _, fun i => ?_, hfile,
    SourceFile.layouts_of_parse hfile⟩
  · rw [Code.containsWord_iff (Text.cells_ne_nil hne) hcells]
    exact exists_congr fun i => (wholeAt_iff hne).symm
  · rw [Code.mem_wordPositions_iff hclass_ne hclass_ident, wholeAt_iff hclass_ne, hclass_cells]

/-- A class whose name begins with two words that overlap, neither of them whole, while its base is
the word alone. The field type ends in `class`. -/
def overlappingWords : Text := "class éaéaéa : éaéa { subclass c; }".toList

theorem whole_words_found_overlappingWords :
    "éaéa".toList ≠ [] ∧ (∀ b ∈ Text.bytes "éaéa".toList, isIdent b = true) ∧
      (∃ i, WholeAt (Text.bytes "éaéa".toList) overlappingWords.bytes i) ∧
      ∃ file, Guarded.wordPositions "class".toList overlappingWords.mask 0 = .ok [0] ∧
        (∀ i, i ∈ [0] ↔ WholeAt (Text.bytes "class".toList) overlappingWords.mask.bytes i) ∧
        SourceFile.parse overlappingWords = .ok file ∧
        file.classes.map ParsedClass.layout =
          [0].filterMap (Code.classAt? overlappingWords.mask.cells) := by
  have hne : "éaéa".toList ≠ [] := by decide
  have hword : ∀ b ∈ Text.bytes "éaéa".toList, isIdent b = true :=
    List.all_eq_true.mp (by decide)
  obtain ⟨hfound, keywords, file, hsearch, -, hwhole, hfile, hlayouts⟩ :=
    whole_words_found hne hword overlappingWords
  have hkeywords : keywords = [0] := by
    have hpositions : Guarded.wordPositions "class".toList overlappingWords.mask 0 =
        .ok (Code.wordPositions "class".toList overlappingWords.mask.cells) :=
      Guarded.wordPositions_eq (by decide) (by decide) _
    rw [hsearch] at hpositions
    rw [Except.ok.inj hpositions]
    decide
  rw [hkeywords] at hsearch hwhole hlayouts
  exact ⟨hne, hword, hfound.mp (by decide), file, hsearch, hwhole, hfile, hlayouts⟩

end Bytes

end ClassRefactor
