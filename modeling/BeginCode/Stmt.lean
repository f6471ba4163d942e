import BeginCode.Expr

/-!
# Statements

A program is one block. There is no statement for a counted loop: `FOR` is a `WHILE` whose body ends
with the increment, inside a block of its own when it has an initializer.
-/

namespace BeginCode

inductive Stmt where
  | block (body : List Stmt) (line : Nat)
  | expression (expr : Expr) (line : Nat)
  | conditional (condition : Expr) (thenBranch : Stmt) (elseBranch : Option Stmt) (line : Nat)
  | loop (condition : Expr) (body : Stmt) (line : Nat)
  | display (value : Expr) (line : Nat)
  | scan (targets : List Token) (line : Nat)
  | declare (type : ValueType) (name : Token) (initializer : Option Expr)
  /-- Assigns to several declared variables at once. It has no notation in source text. -/
  | assignAll (names : List Token) (values : List (Option Expr)) (line : Nat)
  deriving Repr

namespace Stmt

/-- An expression as a statement. -/
def ofExpr (expr : Expr) : Stmt := .expression expr expr.line

/-- The statement for a `FOR` loop on line `line` whose body begins on line `bodyLine`. A missing
condition counts as true. -/
def forLoop (initializer : Option Stmt) (condition increment : Option Expr) (body : List Stmt)
    (bodyLine line : Nat) : Stmt :=
  let condition := condition.getD (.literal (.bool true) line)
  let body := body ++ increment.toList.map ofExpr
  let looped := Stmt.loop condition (.block body bodyLine) line
  match initializer with
  | some initializer => .block [initializer, looped] line
  | none => looped

end Stmt

end BeginCode
