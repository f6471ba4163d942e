import BeginCode.Operator
import BeginCode.Token

/-!
# Expressions

Trees of operators over literals and variables. A node carries the line of its operator, opening
parenthesis or literal; a variable and an assignment carry the token that names them.
-/

namespace BeginCode

inductive Expr where
  | literal (value : Value) (line : Nat)
  | grouping (inner : Expr) (line : Nat)
  | unary (op : UnaryOp) (operand : Expr) (line : Nat)
  | binary (op : BinaryOp) (left right : Expr) (line : Nat)
  | logical (op : LogicalOp) (left right : Expr) (line : Nat)
  | variable (name : Token)
  | assign (name : Token) (value : Expr)
  deriving DecidableEq, Repr

def Expr.line : Expr → Nat
  | literal _ line => line
  | grouping _ line => line
  | unary _ _ line => line
  | binary _ _ _ line => line
  | logical _ _ _ line => line
  | .variable name => name.line
  | assign name _ => name.line

end BeginCode
