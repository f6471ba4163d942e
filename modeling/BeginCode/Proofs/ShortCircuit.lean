import BeginCode.Expr.Eval

/-!
# Short-circuit chains

A chain of `OR` or of `AND` is nested to the left, so its value is tested again by every operator
further out. All the same it evaluates its operands in order, each at most once, up to the first one
that fails or has a value that settles the chain. What stands after that operand does not matter.
-/

namespace BeginCode

/-- The values that settle a chain: for `OR` all values but nil and `FALSE`, for `AND` these two. -/
def LogicalOp.SettledBy : LogicalOp → Value → Prop
  | .or, value => value ≠ .nil ∧ value ≠ .bool false
  | .and, value => value = .nil ∨ value = .bool false

theorem Value.truthy_eq_false_iff {value : Value} :
    value.truthy = false ↔ value = .nil ∨ value = .bool false := by
  cases value <;> simp [truthy]

namespace LogicalOp

theorem decides_iff {op : LogicalOp} {value : Value} :
    op.decides value = true ↔ op.SettledBy value := by
  cases op with
  | or => rw [decides, SettledBy, ← not_or, ← Value.truthy_eq_false_iff, Bool.not_eq_false]
  | and => rw [decides, SettledBy, ← Value.truthy_eq_false_iff, Bool.not_eq_true']

/-- Outcomes of an operand after which no other operand is evaluated. -/
inductive Settled (op : LogicalOp) : EStateM.Result RuntimeError Environment Value → Prop where
  | error (error : RuntimeError) (after : Environment) : Settled op (.error error after)
  | value {value : Value} (after : Environment) (hvalue : op.SettledBy value) :
      Settled op (.ok value after)

/-- The operands are evaluated one after the other. Each one has a value, and none of the values
settles the chain. -/
inductive Passes (op : LogicalOp) : Environment → List Expr → Environment → Prop where
  | none (environment : Environment) : Passes op environment [] environment
  | operand {before middle after : Environment} {operand : Expr} {value : Value}
      {operands : List Expr} (heval : operand.eval.run before = .ok value middle)
      (hvalue : ¬op.SettledBy value) (hpasses : Passes op middle operands after) :
      Passes op before (operand :: operands) after

theorem exists_of_not_settled {op : LogicalOp}
    {outcome : EStateM.Result RuntimeError Environment Value} (houtcome : ¬op.Settled outcome) :
    ∃ value after, outcome = .ok value after ∧ ¬op.SettledBy value := by
  cases outcome with
  | ok value after => exact ⟨value, after, rfl, fun hvalue => houtcome (.value after hvalue)⟩
  | error error after => exact absurd (.error error after) houtcome

end LogicalOp

namespace Expr

/-- The operands joined by the operator and nested to the left. Every operand but the first one
comes with the line of the operator before it. -/
def nested (op : LogicalOp) (first : Expr) (others : List (Nat × Expr)) : Expr :=
  others.foldl (fun left other => .logical op left other.2 other.1) first

section Logical

variable {op : LogicalOp} {left : Expr} {environment : Environment}

theorem run_logical_of_settled (hleft : op.Settled (left.eval.run environment)) (right : Expr)
    (line : Nat) :
    (logical op left right line).eval.run environment = left.eval.run environment := by
  rw [eval, EStateM.run_bind]
  generalize left.eval.run environment = outcome at hleft
  cases hleft with
  | error error after => rfl
  | value after hvalue =>
      dsimp only
      rw [if_pos (LogicalOp.decides_iff.mpr hvalue)]
      rfl

theorem run_logical_of_passed {value : Value} {after : Environment}
    (hleft : left.eval.run environment = .ok value after) (hvalue : ¬op.SettledBy value)
    (right : Expr) (line : Nat) :
    (logical op left right line).eval.run environment = right.eval.run after := by
  rw [eval, EStateM.run_bind, hleft]
  dsimp only
  rw [if_neg (mt LogicalOp.decides_iff.mp hvalue)]

end Logical

section Nested

variable {op : LogicalOp} {first other : Expr} {environment later : Environment}

/-- The operators further out see the outcome of the first operand and nothing else of it. -/
theorem run_nested_congr (hsame : first.eval.run environment = other.eval.run later)
    (others : List (Nat × Expr)) :
    (nested op first others).eval.run environment = (nested op other others).eval.run later := by
  induction others generalizing first other with
  | nil => exact hsame
  | cons next others ih =>
      apply ih
      rw [eval, eval, EStateM.run_bind, EStateM.run_bind, hsame]

theorem run_nested_of_settled (hfirst : op.Settled (first.eval.run environment))
    (others : List (Nat × Expr)) :
    (nested op first others).eval.run environment = first.eval.run environment := by
  induction others generalizing first with
  | nil => rfl
  | cons next others ih =>
      have hlogical := run_logical_of_settled hfirst next.2 next.1
      rw [← hlogical] at hfirst
      exact (ih hfirst).trans hlogical

/-- After a first operand that settles nothing, the chain goes on as the chain of the others. -/
theorem run_nested_of_passed {value : Value} {after : Environment}
    (hfirst : first.eval.run environment = .ok value after) (hvalue : ¬op.SettledBy value)
    (next : Nat × Expr) (others : List (Nat × Expr)) :
    (nested op first (next :: others)).eval.run environment =
      (nested op next.2 others).eval.run after :=
  run_nested_congr (run_logical_of_passed hfirst hvalue next.2 next.1) others

/-- The operands after one that settles the chain do not matter. -/
theorem run_nested_of_passes {passed rest : List Expr} {last : Expr} {middle : Environment}
    (hpasses : op.Passes environment passed middle) (hlast : op.Settled (last.eval.run middle))
    {others : List (Nat × Expr)}
    (hoperands : first :: others.map Prod.snd = passed ++ last :: rest) :
    (nested op first others).eval.run environment = last.eval.run middle := by
  induction hpasses generalizing first others with
  | none environment =>
      obtain ⟨rfl, -⟩ := List.cons.inj hoperands
      exact run_nested_of_settled hlast others
  | operand heval hvalue _ ih =>
      obtain ⟨rfl, htail⟩ := List.cons.inj hoperands
      cases others with
      | nil => exact absurd htail.symm (by simp)
      | cons next others =>
          rw [run_nested_of_passed heval hvalue]
          exact ih hlast htail

end Nested

/-- Operands are passed up to one whose outcome is that of the chain. It settles the chain or is the
last operand. -/
theorem exists_passes (op : LogicalOp) (first : Expr) (others : List (Nat × Expr))
    (environment : Environment) :
    ∃ passed last rest middle, first :: others.map Prod.snd = passed ++ last :: rest ∧
      op.Passes environment passed middle ∧
      (nested op first others).eval.run environment = last.eval.run middle ∧
      (op.Settled (last.eval.run middle) ∨ rest = []) := by
  induction others generalizing first environment with
  | nil => exact ⟨[], first, [], environment, rfl, .none environment, rfl, .inr rfl⟩
  | cons next others ih =>
      by_cases hfirst : op.Settled (first.eval.run environment)
      · exact ⟨[], first, _, environment, rfl, .none environment,
          run_nested_of_settled hfirst _, .inl hfirst⟩
      · obtain ⟨value, after, heval, hvalue⟩ := LogicalOp.exists_of_not_settled hfirst
        obtain ⟨passed, last, rest, middle, hoperands, hpasses, hrun, hend⟩ := ih next.2 after
        refine ⟨first :: passed, last, rest, middle, congrArg (first :: ·) hoperands,
          .operand heval hvalue hpasses, ?_, hend⟩
        rw [run_nested_of_passed heval hvalue, hrun]

/-- A chain evaluates its operands in order and once each, up to the first one that fails or settles
the chain, or to the last one. It ends as this operand does. If the operand settles the chain, any
other operands after it give the same outcome. -/
theorem run_nested (op : LogicalOp) (first : Expr) (others : List (Nat × Expr))
    (environment : Environment) :
    ∃ passed last rest middle, first :: others.map Prod.snd = passed ++ last :: rest ∧
      op.Passes environment passed middle ∧
      (nested op first others).eval.run environment = last.eval.run middle ∧
      (op.Settled (last.eval.run middle) ∨ rest = []) ∧
      (op.Settled (last.eval.run middle) →
        ∀ (head : Expr) (tail : List (Nat × Expr)) (replaced : List Expr),
          head :: tail.map Prod.snd = passed ++ last :: replaced →
            (nested op head tail).eval.run environment =
              (nested op first others).eval.run environment) := by
  obtain ⟨passed, last, rest, middle, hoperands, hpasses, hrun, hend⟩ :=
    exists_passes op first others environment
  refine ⟨passed, last, rest, middle, hoperands, hpasses, hrun, hend, ?_⟩
  intro hsettled head tail replaced hreplaced
  rw [run_nested_of_passes hpasses hsettled hreplaced, hrun]

example :
    let flag : Token := ⟨.identifier, "flag", 1, none⟩
    let missing : Token := ⟨.identifier, "missing", 3, none⟩
    (nested .or (.variable flag)
        [(1, .assign flag (.literal (.bool true) 2)), (2, .variable missing)]).eval.run
        ⟨[⟨[("flag", ⟨.bool, .nil⟩)]⟩]⟩ =
      .ok (.bool true) ⟨[⟨[("flag", ⟨.bool, .bool true⟩)]⟩]⟩ := by
  rfl

end Expr

end BeginCode
