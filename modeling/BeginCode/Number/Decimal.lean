import BeginCode.Number.Integer

/-!
# Decimal text of doubles

Reads an optional sign, digits with an optional point, and an optional power of ten, or a word for
an infinity or for an undefined number. Every decimal is rounded to the nearest double, a tie to the
even one.
-/

namespace BeginCode.Number

/-- The number `digits * 10 ^ exponent`. -/
structure Decimal where
  digits : Nat
  exponent : Int
  deriving DecidableEq, Repr

/-- The nearest double. Decimals beyond the finite doubles are settled by their size alone, so that
no power of ten is computed for them. -/
def Decimal.magnitude (decimal : Decimal) : Float :=
  let length : Int := (toDigits decimal.digits).length
  if decimal.digits = 0 || length + decimal.exponent ≤ -324 then 0
  else if 310 ≤ length + decimal.exponent then 1 / 0
  else if decimal.exponent < 0 then
    Float.ofScientific decimal.digits true decimal.exponent.natAbs
  else
    Float.ofScientific decimal.digits false decimal.exponent.natAbs

/-- An exponent after its mark: an optional sign and at least one digit. -/
def readExponent? (text : List Char) : Option Int :=
  let (negative, digits) := splitSign text
  if digits.isEmpty || !digits.all isDigit then none
  else if negative then some (-(ofDigits digits : Int))
  else some (ofDigits digits)

/-- Digits with an optional point among them, then an optional exponent. -/
def readDecimal? (text : List Char) : Option Decimal := do
  let whole := text.takeWhile isDigit
  let rest := text.dropWhile isDigit
  let (fraction, rest) :=
    match rest with
    | '.' :: rest => (rest.takeWhile isDigit, rest.dropWhile isDigit)
    | _ => ([], rest)
  if whole.isEmpty && fraction.isEmpty then none
  else
    let exponent ←
      match rest with
      | [] => some 0
      | mark :: rest => if mark = 'e' || mark = 'E' then readExponent? rest else none
    some ⟨ofDigits (whole ++ fraction), exponent - fraction.length⟩

def readMagnitude? (text : List Char) : Option Float :=
  match readDecimal? text with
  | some decimal => some decimal.magnitude
  | none =>
      let word := text.map Char.toLower
      if word = "inf".toList || word = "infinity".toList then some (1 / 0)
      else if word = "nan".toList then some (0 / 0)
      else none

def readFloat? (text : List Char) : Option Float :=
  let (negative, magnitude) := splitSign text
  (readMagnitude? magnitude).map fun x => if negative then -x else x

end BeginCode.Number
