import ClassRefactor.Text.Numeral

/-!
# Decimal numbers and their binary neighbours

A decimal number is read as the nearest binary number of 53 bits, and a binary number is written
with the fewest digits that read back as it. Both are exact computations on natural numbers.
-/

namespace ClassRefactor

/-- The number `digits * 10 ^ exponent`. -/
structure Decimal where
  digits : Nat
  exponent : Int
deriving DecidableEq, Repr

/-- The number `mantissa * 2 ^ exponent`. The mantissa has exactly 53 bits, or fewer if the exponent
is the least one. -/
structure Binary where
  mantissa : Nat
  exponent : Int
deriving DecidableEq, Repr

/-- The integer nearest to a quotient. A half goes to the even one. -/
def nearestQuotient (n d : Nat) : Nat :=
  let q := n / d
  match compare (2 * (n % d)) d with
  | .lt => q
  | .gt => q + 1
  | .eq => q + q % 2

/-- The number of decimal digits of a number. -/
def digitCount (n : Nat) : Nat := (Nat.toDigits 10 n).length

/-- A fraction as numerator and denominator. -/
structure Ratio where
  numerator : Nat
  denominator : Nat

namespace Ratio

/-- The fraction times a power of a base. -/
def scale (r : Ratio) (base : Nat) (power : Int) : Ratio :=
  ⟨r.numerator * Nat.pow base power.toNat, r.denominator * Nat.pow base (-power).toNat⟩

def floor (r : Ratio) : Nat := r.numerator / r.denominator

/-- The integer nearest to a fraction. -/
def nearest (r : Ratio) : Nat := nearestQuotient r.numerator r.denominator

end Ratio

def Decimal.ratio (d : Decimal) : Ratio := Ratio.scale ⟨d.digits, 1⟩ 10 d.exponent

namespace Binary

/-- The mantissas are below this number. -/
def mantissaBound : Nat := Nat.pow 2 53

def leastExponent : Int := -1074

def greatestExponent : Int := 971

def zero : Binary := ⟨0, leastExponent⟩

def ratio (x : Binary) : Ratio := Ratio.scale ⟨x.mantissa, 1⟩ 2 x.exponent

/-- The nearest binary number to a fraction that is not zero. There is none for a fraction that is
nearer to the next power of two than to the greatest number. -/
def ofRatio? (r : Ratio) : Option Binary :=
  let guess : Int := (r.numerator.log2 : Int) - r.denominator.log2 - 53
  let exact := if (r.scale 2 (-guess)).floor < mantissaBound then guess else guess + 1
  let exponent := if exact < leastExponent then leastExponent else exact
  let mantissa := (r.scale 2 (-exponent)).nearest
  let x : Binary :=
    if mantissa = mantissaBound then ⟨mantissa / 2, exponent + 1⟩ else ⟨mantissa, exponent⟩
  if x.exponent ≤ greatestExponent then some x else none

/-- The order of two numbers. -/
def order (x y : Binary) : Ordering :=
  (compare x.exponent y.exponent).then (compare x.mantissa y.mantissa)

end Binary

/-- The nearest binary number to a decimal one, if it is not too large. Decimals of an order of
magnitude far from every binary number are not computed. -/
def Decimal.toBinary? (d : Decimal) : Option Binary :=
  let magnitude := (digitCount d.digits : Int) + d.exponent
  if d.digits = 0 || magnitude < -330 then some .zero
  else if 310 < magnitude then none
  else Binary.ofRatio? d.ratio

namespace Binary

/-- The least power of ten above a number that is not zero. -/
def magnitude (x : Binary) : Int :=
  let r := x.ratio
  let guess := (digitCount r.numerator : Int) - digitCount r.denominator
  if (r.scale 10 (-guess)).floor = 0 then guess else guess + 1

/-- The decimal with so many digits that is nearest to a number and reads back as it. Of two that
are equally near, it is the greater one. -/
def decimalOf? (x : Binary) (count : Nat) : Option Decimal :=
  let exponent := x.magnitude - count
  let r := x.ratio.scale 10 (-exponent)
  let below : Decimal := ⟨r.floor, exponent⟩
  let above : Decimal := ⟨r.floor + 1, exponent⟩
  let readsBack := fun (d : Decimal) => d.toBinary? == some x
  let nearBelow := 2 * (r.numerator % r.denominator) < r.denominator
  if readsBack below && (nearBelow || !readsBack above) then some below
  else if readsBack above then some above
  else none

/-- A number as a decimal without any rounding. -/
def exactDecimal (x : Binary) : Decimal :=
  ⟨x.mantissa * Nat.pow 2 x.exponent.toNat * Nat.pow 5 (-x.exponent).toNat,
    if x.exponent < 0 then x.exponent else 0⟩

/-- The decimal with the fewest digits that reads back as a number. Seventeen digits suffice. -/
def shortest (x : Binary) : Decimal :=
  ((List.range 17).findSome? fun n => x.decimalOf? (n + 1)).getD x.exactDecimal

end Binary

/-- A decimal in full, without an exponent and without zeros that do not count. -/
def Decimal.positional (d : Decimal) : String :=
  let all := Nat.toDigits 10 d.digits
  let digits := (all.reverse.dropWhile (· == '0')).reverse
  let point := (all.length : Int) + d.exponent
  let zeros := fun (n : Int) => List.replicate n.toNat '0'
  if digits.isEmpty then "0"
  else if point ≤ 0 then .ofList ('0' :: '.' :: zeros (-point) ++ digits)
  else if (digits.length : Int) ≤ point then .ofList (digits ++ zeros (point - digits.length))
  else .ofList (digits.take point.toNat ++ '.' :: digits.drop point.toNat)

end ClassRefactor
