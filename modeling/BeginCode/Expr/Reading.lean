import BeginCode.Cursor
import BeginCode.Expr

/-!
# Reading expressions

From loose to tight: assignment, `OR`, `AND`, equality, order, sums, products, prefix operators,
operands. Assignment groups to the right and all other levels to the left. The line-break symbol `$`
joins two operands on the levels of sums and products; without an operand to its right on its line
it joins with empty text, and without any operand it stands for a line break.

Every reader takes a bound that is at least the number of tokens left. With no token left there is
no operator to go on with and no expression to read, so the bound never changes a result.
-/

namespace BeginCode.Expr

open BeginCode.Token (Kind)

/-- How an operator token joins its two operands; the first argument is the operator's line. -/
abbrev Join := Nat → Expr → Expr → Expr

def Join.binary (op : BinaryOp) : Join := fun line left right => .binary op left right line

def Join.logical (op : LogicalOp) : Join := fun line left right => .logical op left right line

def orJoin? : Kind → Option Join
  | .kwOr => some (.logical .or)
  | _ => none

def andJoin? : Kind → Option Join
  | .kwAnd => some (.logical .and)
  | _ => none

def equalityJoin? : Kind → Option Join
  | .equalEqual => some (.binary (.equality .equal))
  | .notEqual => some (.binary (.equality .notEqual))
  | _ => none

def orderJoin? : Kind → Option Join
  | .less => some (.binary (.order .less))
  | .lessEqual => some (.binary (.order .lessEqual))
  | .greater => some (.binary (.order .greater))
  | .greaterEqual => some (.binary (.order .greaterEqual))
  | _ => none

def sumJoin? : Kind → Option Join
  | .plus => some (.binary (.arithmetic .add))
  | .minus => some (.binary (.arithmetic .sub))
  | .ampersand => some (.binary (.join .concat))
  | .lineBreak => some (.binary (.join .lineBreak))
  | _ => none

def productJoin? : Kind → Option Join
  | .star => some (.binary (.arithmetic .mul))
  | .slash => some (.binary (.arithmetic .div))
  | .percent => some (.binary (.arithmetic .mod))
  | .lineBreak => some (.binary (.join .lineBreak))
  | _ => none

def prefixed? : Kind → Option UnaryOp
  | .kwNot => some .not
  | .minus => some .negate
  | .plus => some .plus
  | .lineBreak => some .lineBreak
  | _ => none

/-- The operand to the right of an operator token. -/
def rightOperand (operand : Reading Expr) (operator : Token) : Reading Expr := do
  if operator.kind = .lineBreak && !(← get).seesOperand operator then
    return .literal (.text "") operator.line
  else
    operand

/-- Reads on after `left` while operators of the level follow. -/
def chainFrom (join? : Kind → Option Join) (operand : Reading Expr) : Nat → Expr → Reading Expr
  | 0, left => return left
  | bound + 1, left => do
      let operator ← Reading.head
      match join? operator.kind with
      | none => return left
      | some join =>
          Reading.advance
          let right ← rightOperand operand operator
          chainFrom join? operand bound (join operator.line left right)

/-- One level of operators that group to the left. -/
def chain (join? : Kind → Option Join) (bound : Nat) (operand : Reading Expr) : Reading Expr := do
  chainFrom join? operand bound (← operand)

/-- All levels from `OR` down to products. -/
def operators (bound : Nat) (operand : Reading Expr) : Reading Expr :=
  chain orJoin? bound <| chain andJoin? bound <| chain equalityJoin? bound <|
    chain orderJoin? bound <| chain sumJoin? bound <| chain productJoin? bound operand

def prefixOperators (operand : Reading Expr) : Nat → Reading Expr
  | 0 => operand
  | bound + 1 => do
      let operator ← Reading.head
      match prefixed? operator.kind with
      | none => operand
      | some op =>
          Reading.advance
          if op = .lineBreak && !(← get).seesOperand operator then
            return .literal (.text "\n") operator.line
          else
            return .unary op (← prefixOperators operand bound) operator.line

def missing : Reading Expr := Reading.fail fun found => .expectedExpression found.describe

/-- Literals, variables and expressions in parentheses. -/
def operand (inner : Reading Expr) : Reading Expr := do
  let token ← Reading.head
  match token.kind with
  | .kwTrue => literal (.bool true) token.line
  | .kwFalse => literal (.bool false) token.line
  | .kwNil => literal .nil token.line
  | .integer | .float | .charLiteral | .text | .escape =>
      literal (token.literal.getD .nil) token.line
  | .identifier =>
      Reading.advance
      return .variable token
  | .leftParen =>
      Reading.advance
      let expr ← inner
      let _ ← Reading.expect .rightParen "Expect ')' after expression."
      return .grouping expr token.line
  | _ => missing
where
  literal (value : Value) (line : Nat) : Reading Expr := do
    Reading.advance
    return .literal value line

/-- What an assignment operator makes of its two sides: only a variable can be assigned to, and
otherwise the assigned value is kept. -/
def assigned (target value : Expr) (operator : Token) : Reading Expr :=
  match target with
  | .variable name => return .assign name value
  | _ => do
      Reading.report .invalidAssignmentTarget operator.line
      return value

/-- Reads an expression; parentheses and assigned values are nested at most `bound` deep. -/
def readWithin : Nat → Reading Expr
  | 0 => missing
  | bound + 1 => do
      let target ← operators (bound + 1)
        (prefixOperators (operand (readWithin bound)) (bound + 1))
      let operator ← Reading.head
      if operator.kind = .equals then
        Reading.advance
        let value ← readWithin bound
        assigned target value operator
      else
        return target

/-- Reads the longest expression at the cursor. -/
def read : Reading Expr := do readWithin (← get).rest.length

end BeginCode.Expr
