import ClassRefactor.Number.Decimal

/-!
# Numbers of double precision

Signed binary numbers with the two infinities and with what is not a number.
-/

namespace ClassRefactor

inductive Double where
  | finite (negative : Bool) (magnitude : Binary)
  | infinite (negative : Bool)
  | nan
deriving DecidableEq, Repr

/-- Reads digits with or without a point among them and an exponent after them. -/
def Decimal.read? (t : Text) : Option Decimal :=
  let whole := t.takeWhile Char.isDigit
  let (fraction, rest) := match t.dropWhile Char.isDigit with
    | '.' :: t => (t.takeWhile Char.isDigit, t.dropWhile Char.isDigit)
    | t => ([], t)
  if whole.isEmpty && fraction.isEmpty then none
  else do
    let exponent ← match rest with
      | [] => some 0
      | c :: t => if c == 'e' || c == 'E' then signedNumeral? t else none
    return ⟨digitsValue (whole ++ fraction), exponent - fraction.length⟩

namespace Double

/-- Reads a number that has no sign. -/
def readUnsigned? (negative : Bool) (t : Text) : Option Double :=
  let word : String := .ofList (t.map Char.toLower)
  if word == "nan" then some .nan
  else if word == "inf" || word == "infinity" then some (.infinite negative)
  else (Decimal.read? t).map fun d => d.toBinary?.elim (.infinite negative) (.finite negative)

/-- Reads a number with or without a sign. A number that is too large is infinite. -/
def read? : Text → Option Double
  | '-' :: t => readUnsigned? true t
  | '+' :: t => readUnsigned? false t
  | t => readUnsigned? false t

/-- A number with the fewest digits that read back as it. -/
def render : Double → String
  | .finite negative x =>
    (if negative then "-" else "") ++ (if x.mantissa = 0 then "0" else x.shortest.positional)
  | .infinite negative => if negative then "-inf" else "inf"
  | .nan => "NaN"

/-- Negative numbers come first, both zeros are equal, and what is not a number comes last. -/
def order : Double → Double → Ordering
  | .nan, .nan => .eq
  | .nan, _ => .gt
  | _, .nan => .lt
  | .infinite a, .infinite b => compare b a
  | .infinite a, .finite _ _ => if a then .lt else .gt
  | .finite _ _, .infinite b => if b then .gt else .lt
  | .finite a x, .finite b y =>
    if x.mantissa = 0 && y.mantissa = 0 then .eq
    else match a, b with
      | false, false => x.order y
      | true, true => y.order x
      | true, false => .lt
      | false, true => .gt

end Double

end ClassRefactor
