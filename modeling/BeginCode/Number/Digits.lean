/-!
# Decimal digits

Natural numbers as runs of ASCII digits, most significant digit first.
-/

namespace BeginCode.Number

def isDigit (c : Char) : Bool := '0' ≤ c && c ≤ '9'

def digitValue (c : Char) : Nat := c.toNat - '0'.toNat

/-- The number that a run of digits denotes; leading zeros do not matter. -/
def ofDigits (digits : List Char) : Nat :=
  digits.foldl (fun total c => 10 * total + digitValue c) 0

/-- The digits of a number without leading zeros, `0` for zero. -/
def toDigits (n : Nat) : List Char := Nat.toDigits 10 n

def tenPower (n : Nat) : Nat := Nat.pow 10 n

end BeginCode.Number
