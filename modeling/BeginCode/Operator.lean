/-!
# Operators

The operators of expressions, grouped by what they do with their operands.
-/

namespace BeginCode

inductive ArithmeticOp where
  | add
  | sub
  | mul
  | div
  | mod
  deriving DecidableEq, Repr

inductive OrderOp where
  | less
  | lessEqual
  | greater
  | greaterEqual
  deriving DecidableEq, Repr

inductive EqualityOp where
  | equal
  | notEqual
  deriving DecidableEq, Repr

/-- Operators that join texts: directly, or with a line break between them. -/
inductive JoinOp where
  | concat
  | lineBreak
  deriving DecidableEq, Repr

inductive BinaryOp where
  | arithmetic (op : ArithmeticOp)
  | order (op : OrderOp)
  | equality (op : EqualityOp)
  | join (op : JoinOp)
  deriving DecidableEq, Repr

inductive UnaryOp where
  | not
  | negate
  | plus
  | lineBreak
  deriving DecidableEq, Repr

/-- Operators whose right operand is evaluated only when the left one does not decide. -/
inductive LogicalOp where
  | and
  | or
  deriving DecidableEq, Repr

def ArithmeticOp.symbol : ArithmeticOp → String
  | .add => "+"
  | .sub => "-"
  | .mul => "*"
  | .div => "/"
  | .mod => "%"

def OrderOp.symbol : OrderOp → String
  | .less => "<"
  | .lessEqual => "<="
  | .greater => ">"
  | .greaterEqual => ">="

def EqualityOp.symbol : EqualityOp → String
  | .equal => "=="
  | .notEqual => "<>"

def JoinOp.symbol : JoinOp → String
  | .concat => "&"
  | .lineBreak => "$"

def BinaryOp.symbol : BinaryOp → String
  | .arithmetic op => op.symbol
  | .order op => op.symbol
  | .equality op => op.symbol
  | .join op => op.symbol

def UnaryOp.symbol : UnaryOp → String
  | .not => "NOT"
  | .negate => "-"
  | .plus => "+"
  | .lineBreak => "$"

def LogicalOp.symbol : LogicalOp → String
  | .and => "AND"
  | .or => "OR"

end BeginCode
