import BeginCode.Environment
import BeginCode.Expr
import BeginCode.Operator.Apply

/-!
# Evaluating expressions

Operands are evaluated from left to right. Evaluation can change the values of variables and nothing
else.
-/

namespace BeginCode

/-- A computation on the environment, which it keeps also when it fails. -/
abbrev Eval := EStateM RuntimeError Environment

namespace Eval

def lookup (name : Token) : Eval Binding := fun environment =>
  match environment.lookup name with
  | .ok binding => .ok binding environment
  | .error error => .error error environment

def assign (name : Token) (value : Value) : Eval Unit := fun environment =>
  match environment.assign name value with
  | .ok updated => .ok () updated
  | .error error => .error error environment

/-- The result of an operator on line `line`. -/
def ofResult (result : Except RuntimeCause Value) (line : Nat) : Eval Value :=
  match result with
  | .ok value => return value
  | .error cause => throw ⟨cause, line⟩

theorem run_lookup (name : Token) (environment : Environment) :
    (lookup name).run environment =
      match environment.lookup name with
      | .ok binding => .ok binding environment
      | .error error => .error error environment := rfl

theorem run_assign (name : Token) (value : Value) (environment : Environment) :
    (assign name value).run environment =
      match environment.assign name value with
      | .ok updated => .ok () updated
      | .error error => .error error environment := rfl

theorem run_ofResult (result : Except RuntimeCause Value) (line : Nat)
    (environment : Environment) :
    (ofResult result line).run environment =
      match result with
      | .ok value => .ok value environment
      | .error cause => .error ⟨cause, line⟩ environment := by
  cases result <;> rfl

end Eval

def Expr.eval : Expr → Eval Value
  | literal value _ => return value
  | grouping inner _ => inner.eval
  | unary op operand line => do
      let value ← operand.eval
      Eval.ofResult (op.apply value) line
  | binary op left right line => do
      let leftValue ← left.eval
      let rightValue ← right.eval
      Eval.ofResult (op.apply leftValue rightValue) line
  | logical op left right _ => do
      let leftValue ← left.eval
      if op.decides leftValue then return leftValue else right.eval
  | .variable name => return (← Eval.lookup name).value
  | assign name value => do
      let newValue ← value.eval
      Eval.assign name newValue
      return newValue

end BeginCode
