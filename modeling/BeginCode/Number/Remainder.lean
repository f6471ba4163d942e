import BeginCode.Number.Double

/-!
# Remainder of doubles

The remainder of the division truncated toward zero. On a common power of two both operands are
natural numbers, so the result is exact; it carries the sign of the dividend.
-/

namespace BeginCode.Number

def Double.remainder : Double → Double → Double
  | .finite negative dividend exponent, .finite _ divisor exponent' =>
      if divisor = 0 then .nan
      else
        let common := min exponent exponent'
        .finite negative
          (dividend * twoPower (exponent - common).toNat %
            (divisor * twoPower (exponent' - common).toNat))
          common
  | .finite negative dividend exponent, .infinite _ => .finite negative dividend exponent
  | _, _ => .nan

def remainder (dividend divisor : Float) : Float :=
  ((Double.ofFloat dividend).remainder (Double.ofFloat divisor)).toFloat

end BeginCode.Number
