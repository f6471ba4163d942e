import BeginCode.Value
import BeginCode.Number.Decimal

/-!
# Values of input fields

The kind of value that a field of an input line stands for is read off its text: a whole number, a
number with a point or an exponent, a single character, a truth value, and otherwise text.
-/

namespace BeginCode.Value

/-- Words such as `inf` are text: a float has to hold a digit. -/
def numberOfField? (field : List Char) : Option Value :=
  match Number.readInt64? field with
  | some n => some (.integer n)
  | none => if field.any Number.isDigit then (Number.readFloat? field).map .float else none

def wordOfField (field : String) : Value :=
  if field = "TRUE" || field = "\"TRUE\"" then .bool true
  else if field = "FALSE" || field = "\"FALSE\"" then .bool false
  else .text field

def ofField (field : List Char) : Value :=
  match numberOfField? field with
  | some value => value
  | none =>
      match field with
      | [c] => .char c
      | _ => wordOfField (String.ofList field)

end BeginCode.Value
