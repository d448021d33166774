import ClassRefactor.Text.Basic

/-!
# White space

Two notions are in use. *Layout blanks* are the five ASCII characters that separate tokens. *White
space* is the Unicode property of that name; it decides what trimming removes and where words end.
-/

namespace ClassRefactor

/-- Space, tab, line feed, form feed and carriage return: the blanks between tokens. -/
def isLayoutBlank (c : Char) : Bool :=
  c == ' ' || c == '\t' || c == '\n' || c == '\x0c' || c == '\r'

/-- The Unicode property `White_Space`. -/
def isWhite (c : Char) : Bool :=
  let n := c.toNat
  (0x9 ≤ n && n ≤ 0xD) || n == 0x20 || n == 0x85 || n == 0xA0 || n == 0x1680 ||
    (0x2000 ≤ n && n ≤ 0x200A) || n == 0x2028 || n == 0x2029 || n == 0x202F || n == 0x205F ||
    n == 0x3000

theorem isWhite_of_isLayoutBlank {c : Char} (h : isLayoutBlank c = true) : isWhite c = true := by
  simp only [isLayoutBlank, Bool.or_eq_true, beq_iff_eq] at h
  rcases h with (((h | h) | h) | h) | h <;> subst h <;> decide

namespace Text

def trimStart (t : Text) : Text := t.dropWhile isWhite

def trimEnd (t : Text) : Text := (t.reverse.dropWhile isWhite).reverse

/-- The text without white space at either end. -/
def trim (t : Text) : Text := trimEnd (trimStart t)

/-- The text without any white space. -/
def strip (t : Text) : Text := t.filter fun c => !isWhite c

/-- Collects words from left to right; `word` holds the current one, last character first. -/
def wordsFrom (word : Text) : Text → List Text
  | [] => if word.isEmpty then [] else [word.reverse]
  | c :: t =>
    if isWhite c then
      if word.isEmpty then wordsFrom [] t else word.reverse :: wordsFrom [] t
    else wordsFrom (c :: word) t

/-- The maximal runs of characters that are not white space. -/
def words (t : Text) : List Text := wordsFrom [] t

/-- The words of a text with one space between each two. -/
def compact (t : Text) : Text := List.intercalate [' '] (words t)

end Text

end ClassRefactor
