/-!
# Doubles as binary fractions

A finite double is a sign, a natural significand and a power of two. The decomposition is exact, so
rounding, printing and remainders can be settled with natural numbers.
-/

namespace BeginCode.Number

inductive Double where
  | finite (negative : Bool) (significand : Nat) (exponent : Int)
  | infinite (negative : Bool)
  | nan
  deriving DecidableEq, Repr

def twoPower (n : Nat) : Nat := Nat.pow 2 n

/-- The least exponent of a double, that of the subnormal numbers. -/
def Double.leastExponent : Int := -1074

def Double.ofFloat (x : Float) : Double :=
  let bits := x.toBits.toNat
  let negative := decide (twoPower 63 ≤ bits)
  let biased : Nat := bits / twoPower 52 % 2048
  let fraction := bits % twoPower 52
  if biased = 2047 then
    if fraction = 0 then .infinite negative else .nan
  else if biased = 0 then
    .finite negative fraction leastExponent
  else
    .finite negative (twoPower 52 + fraction) ((biased : Int) - 1 + leastExponent)

/-- The bits of `significand * 2 ^ exponent`, for a significand below `2 ^ 53` and an exponent of at
least `Double.leastExponent`. -/
def Double.magnitudeBits (significand : Nat) (exponent : Int) : Nat :=
  let shift := min (52 - significand.log2) (exponent - leastExponent).toNat
  let aligned := significand * twoPower shift
  if aligned < twoPower 52 then aligned
  else (exponent - shift - leastExponent).toNat * twoPower 52 + aligned

def Double.toFloat : Double → Float
  | .finite negative significand exponent =>
      Float.ofBits (.ofNat
        ((if negative then twoPower 63 else 0) + magnitudeBits significand exponent))
  | .infinite negative => Float.ofBits (if negative then 0xfff0000000000000 else 0x7ff0000000000000)
  | .nan => Float.ofBits 0x7ff8000000000000

end BeginCode.Number
