import BeginCode.Number.Digits
import BeginCode.Number.Shortest

/-!
# Positional text of doubles

Doubles are written with their shortest digits and never with an exponent. A whole number has no
fractional part, and a negative zero keeps its sign.
-/

namespace BeginCode.Number

/-- The positional text of `digits * 10 ^ grid`. -/
def positional (digits : Nat) (grid : Int) : List Char :=
  let written := toDigits digits
  let places := (-grid).toNat
  if places = 0 then written ++ List.replicate grid.toNat '0'
  else if places < written.length then
    written.take (written.length - places) ++ '.' :: written.drop (written.length - places)
  else '0' :: '.' :: (List.replicate (places - written.length) '0' ++ written)

def Double.text : Double → List Char
  | .finite negative significand exponent =>
      let magnitude :=
        if significand = 0 then ['0']
        else
          let (digits, grid) := shortest significand exponent
          positional digits grid
      if negative then '-' :: magnitude else magnitude
  | .infinite negative => if negative then "-inf".toList else "inf".toList
  | .nan => "NaN".toList

def floatText (x : Float) : String := String.ofList (Double.ofFloat x).text

end BeginCode.Number
