import ClassRefactor.Text.Basic

/-!
# Numerals
-/

namespace ClassRefactor

/-- The value of decimal digits. -/
def digitsValue (digits : Text) : Nat := digits.foldl (fun n c => n * 10 + (c.toNat - '0'.toNat)) 0

/-- A decimal number, perhaps with a plus sign and leading zeros. -/
def numeral? (t : Text) : Option Nat :=
  let digits := match t with
    | '+' :: rest => rest
    | t => t
  if digits.isEmpty || !digits.all Char.isDigit then none else some (digitsValue digits)

/-- A decimal number with or without a sign. -/
def signedNumeral? : Text → Option Int
  | '-' :: digits =>
    if digits.isEmpty || !digits.all Char.isDigit then none else some (-(digitsValue digits : Int))
  | t => (numeral? t).map Int.ofNat

def hexValue? (c : Char) : Option Nat :=
  if c.isDigit then some (c.toNat - 48)
  else if 'a' ≤ c && c ≤ 'f' then some (c.toNat - 87)
  else if 'A' ≤ c && c ≤ 'F' then some (c.toNat - 55)
  else none

/-- The character with a code point, if it is one. -/
def scalar? (n : Nat) : Option Char :=
  if n < 0xD800 || (0xE000 ≤ n && n < 0x110000) then some (Char.ofNat n) else none

end ClassRefactor
