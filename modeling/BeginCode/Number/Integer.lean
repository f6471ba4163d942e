import BeginCode.Number.Digits

/-!
# 64-bit integers

Arithmetic is carried out exactly and the result is kept only when it fits in 64 bits.
-/

namespace BeginCode.Number

def FitsInt64 (n : Int) : Prop := Int64.minValue.toInt ≤ n ∧ n ≤ Int64.maxValue.toInt

instance (n : Int) : Decidable (FitsInt64 n) := inferInstanceAs (Decidable (_ ∧ _))

/-- The 64-bit integer equal to `n`, if there is one. -/
def int64? (n : Int) : Option Int64 := if FitsInt64 n then some (Int64.ofInt n) else none

def integerText (n : Int) : String :=
  match n with
  | .ofNat magnitude => String.ofList (toDigits magnitude)
  | .negSucc magnitude => String.ofList ('-' :: toDigits (magnitude + 1))

/-- A sign, if one is written, and what follows it. -/
def splitSign : List Char → Bool × List Char
  | '-' :: rest => (true, rest)
  | '+' :: rest => (false, rest)
  | rest => (false, rest)

/-- Reads an optional sign and at least one digit; the number has to fit in 64 bits. -/
def readInt64? (text : List Char) : Option Int64 :=
  let (negative, digits) := splitSign text
  if digits.isEmpty || !digits.all isDigit then none
  else if negative then int64? (-(ofDigits digits : Int))
  else int64? (ofDigits digits)

end BeginCode.Number
