import BeginCode.Operator
import BeginCode.Error
import BeginCode.Number.Remainder

/-!
# Operators on values

Integers are combined exactly and the result has to fit in 64 bits. When an operand is a float, both
are widened. Texts are joined from what `DISPLAY` writes for their operands.
-/

namespace BeginCode

/-- The operators that have no result for a zero divisor. -/
def ArithmeticOp.divides : ArithmeticOp → Bool
  | .div => true
  | .mod => true
  | _ => false

/-- The exact result; quotients are truncated toward zero. -/
def ArithmeticOp.exact : ArithmeticOp → Int → Int → Int
  | .add, a, b => a + b
  | .sub, a, b => a - b
  | .mul, a, b => a * b
  | .div, a, b => a.tdiv b
  | .mod, a, b => a.tmod b

/-- The number that decides about overflow: a remainder needs its quotient to fit. -/
def ArithmeticOp.extent : ArithmeticOp → Int → Int → Int
  | .mod => exact .div
  | op => exact op

def ArithmeticOp.onIntegers (op : ArithmeticOp) (a b : Int64) : Except RuntimeCause Int64 :=
  if op.divides && b == 0 then .error .divisionByZero
  else if Number.FitsInt64 (op.extent a.toInt b.toInt) then
    .ok (Int64.ofInt (op.exact a.toInt b.toInt))
  else .error .overflow

def ArithmeticOp.onFloats (op : ArithmeticOp) (a b : Float) : Except RuntimeCause Float :=
  if op.divides && b == 0 then .error .divisionByZero
  else
    .ok <|
      match op with
      | .add => a + b
      | .sub => a - b
      | .mul => a * b
      | .div => a / b
      | .mod => Number.remainder a b

def ArithmeticOp.apply (op : ArithmeticOp) (left right : Value) : Except RuntimeCause Value :=
  match left, right with
  | .integer a, .integer b => (op.onIntegers a b).map .integer
  | _, _ =>
      match left.widen?, right.widen? with
      | some a, some b => (op.onFloats a b).map .float
      | _, _ => .error (.expectedNumbers op.symbol)

def OrderOp.onIntegers : OrderOp → Int64 → Int64 → Bool
  | .less, a, b => a < b
  | .lessEqual, a, b => a ≤ b
  | .greater, a, b => b < a
  | .greaterEqual, a, b => b ≤ a

def OrderOp.onFloats : OrderOp → Float → Float → Bool
  | .less, a, b => a < b
  | .lessEqual, a, b => a ≤ b
  | .greater, a, b => b < a
  | .greaterEqual, a, b => b ≤ a

def OrderOp.apply (op : OrderOp) (left right : Value) : Except RuntimeCause Value :=
  match left, right with
  | .integer a, .integer b => .ok (.bool (op.onIntegers a b))
  | _, _ =>
      match left.widen?, right.widen? with
      | some a, some b => .ok (.bool (op.onFloats a b))
      | _, _ => .error (.expectedNumbers op.symbol)

def EqualityOp.apply : EqualityOp → Value → Value → Value
  | .equal, left, right => .bool (left.same right)
  | .notEqual, left, right => .bool (!left.same right)

def JoinOp.between : JoinOp → String
  | .concat => ""
  | .lineBreak => "\n"

def JoinOp.apply (op : JoinOp) (left right : Value) : Value :=
  .text (left.display ++ op.between ++ right.display)

def BinaryOp.apply : BinaryOp → Value → Value → Except RuntimeCause Value
  | .arithmetic op, left, right => op.apply left right
  | .order op, left, right => op.apply left right
  | .equality op, left, right => .ok (op.apply left right)
  | .join op, left, right => .ok (op.apply left right)

def UnaryOp.apply : UnaryOp → Value → Except RuntimeCause Value
  | .not, value => .ok (.bool !value.truthy)
  | .negate, .integer n =>
      match Number.int64? (-n.toInt) with
      | some negated => .ok (.integer negated)
      | none => .error .overflow
  | .negate, .float x => .ok (.float (-x))
  | .negate, _ => .error (.expectedNumber UnaryOp.negate.symbol)
  | .plus, value =>
      if value.isNumeric then .ok value else .error (.expectedNumber UnaryOp.plus.symbol)
  | .lineBreak, value => .ok (.text ("\n" ++ value.display))

/-- Whether a value settles a chain of the operator: a true one settles `OR`, any other `AND`. -/
def LogicalOp.decides : LogicalOp → Value → Bool
  | .or, value => value.truthy
  | .and, value => !value.truthy

/-! ## One group's rule for every operator

A group's rule can be asked to treat an operator of another group. It answers with nothing when it
has no case for the operator. -/

def BinaryOp.asArithmetic? (op : BinaryOp) (left right : Value) :
    Option (Except RuntimeCause Value) :=
  match op with
  | .arithmetic op => some (op.apply left right)
  | op =>
      if left.isNumeric && right.isNumeric then none
      else some (.error (.expectedNumbers op.symbol))

def BinaryOp.asComparison? (op : BinaryOp) (left right : Value) :
    Option (Except RuntimeCause Value) :=
  match op with
  | .order op => some (op.apply left right)
  | .equality op => some (.ok (op.apply left right))
  | _ => none

/-- Every operator but the line break joins directly. -/
def BinaryOp.asJoin (op : BinaryOp) (left right : Value) : Value :=
  match op with
  | .join op => op.apply left right
  | _ => JoinOp.concat.apply left right

end BeginCode
