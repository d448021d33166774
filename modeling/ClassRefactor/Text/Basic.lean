/-!
# Text addressed by bytes

A text is a list of characters, and every position in it is a byte offset of its UTF-8 form. This
module measures texts, cuts them at byte offsets, and lays them out as *cells*: one entry per byte,
holding the character that the byte belongs to. An index into the cells is a byte offset, so the
cells let a scan speak of characters while it counts bytes.
-/

namespace ClassRefactor

/-- Source text. -/
abbrev Text := List Char

namespace Text

/-- The number of bytes of a text. -/
def size : Text → Nat
  | [] => 0
  | c :: t => c.utf8Size + size t

/-- The characters that end at or before a byte offset. -/
def before : Text → Nat → Text
  | [], _ => []
  | c :: t, n => if c.utf8Size ≤ n then c :: before t (n - c.utf8Size) else []

/-- What follows `before`: the characters that reach past a byte offset, and all after them. -/
def after : Text → Nat → Text
  | [], _ => []
  | c :: t, n => if c.utf8Size ≤ n then after t (n - c.utf8Size) else c :: t

/-- An offset is a boundary when it falls between two characters or at either end. -/
def isBoundary (t : Text) (offset : Nat) : Bool :=
  size (before t offset) == offset

/-- The characters between two byte offsets. -/
def slice (t : Text) (start stop : Nat) : Text :=
  before (after t start) (stop - start)

/-- The characters between two byte offsets that both are boundaries. -/
def cut? (t : Text) (start stop : Nat) : Option Text :=
  if isBoundary t start && isBoundary t stop then some (slice t start stop) else none

/-- One entry per byte, holding the character that the byte belongs to. -/
def cells (t : Text) : List Char :=
  t.flatMap fun c => List.replicate c.utf8Size c

@[simp] theorem size_nil : size [] = 0 := rfl

@[simp] theorem size_cons (c : Char) (t : Text) : size (c :: t) = c.utf8Size + size t := rfl

@[simp] theorem size_append (s t : Text) : size (s ++ t) = size s + size t := by
  induction s with
  | nil => simp
  | cons c s ih => simp [ih, Nat.add_assoc]

@[simp] theorem length_cells (t : Text) : (cells t).length = size t := by
  induction t with
  | nil => rfl
  | cons c t ih =>
    have step : cells (c :: t) = List.replicate c.utf8Size c ++ cells t := rfl
    simp [step, ih]

theorem cells_append (s t : Text) : cells (s ++ t) = cells s ++ cells t := by
  simp [cells]

theorem before_append_after (t : Text) (n : Nat) : before t n ++ after t n = t := by
  induction t generalizing n with
  | nil => rfl
  | cons c t ih =>
    by_cases h : c.utf8Size ≤ n <;> simp [before, after, h, ih]

end Text

end ClassRefactor
