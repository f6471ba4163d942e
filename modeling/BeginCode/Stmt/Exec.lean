import BeginCode.Console
import BeginCode.Expr.Eval
import BeginCode.Stmt
import BeginCode.Text.Field
import BeginCode.Value.Field

/-!
# Executing statements

A statement works on an environment and a console. A bound limits the number of rounds of each loop,
so that execution is defined for programs that never end; running out of rounds is an outcome of its
own, and a run that stays within one bound is the same for every larger one.
-/

namespace BeginCode

structure World where
  environment : Environment := .root
  console : Console
  deriving DecidableEq, Repr

/-- Why execution stopped early. -/
inductive Stop where
  | fault (error : RuntimeError)
  | outOfRounds
  deriving DecidableEq, Repr

/-- A computation on a world, which it keeps also when it stops. -/
abbrev Exec := EStateM Stop World

namespace Exec

def fault {α : Type} (cause : RuntimeCause) (line : Nat) : Exec α := throw (.fault ⟨cause, line⟩)

def ofEval {α : Type} (eval : Eval α) : Exec α := fun world =>
  match eval.run world.environment with
  | .ok result environment => .ok result { world with environment }
  | .error error environment => .error (.fault error) { world with environment }

/-- Runs in a scope of its own, which is dropped in any case. -/
def inScope {α : Type} (body : Exec α) : Exec α := fun world =>
  match body.run { world with environment := world.environment.push } with
  | .ok result after => .ok result { after with environment := after.environment.pop }
  | .error stop after => .error stop { after with environment := after.environment.pop }

def define (name : String) (binding : Binding) : Exec Unit :=
  modify fun world => { world with environment := world.environment.define name binding }

/-- Writes what a value displays as, on a line of its own. -/
def display (value : Value) (line : Nat) : Exec Unit := do
  let world ← get
  let (complete, console) := world.console.write (Console.utf8 (value.display ++ "\n"))
  set { world with console }
  if !complete then fault (.inputOutput "failed to write whole buffer") line

def takeLine : Exec (List UInt8) := modifyGet fun world =>
  let (line, console) := world.console.takeLine
  (line, { world with console })

theorem run_ofEval {α : Type} (eval : Eval α) (world : World) :
    (ofEval eval).run world =
      match eval.run world.environment with
      | .ok result environment => .ok result { world with environment }
      | .error error environment => .error (.fault error) { world with environment } := rfl

theorem run_inScope {α : Type} (body : Exec α) (world : World) :
    (inScope body).run world =
      match body.run { world with environment := world.environment.push } with
      | .ok result after => .ok result { after with environment := after.environment.pop }
      | .error stop after => .error stop { after with environment := after.environment.pop } := rfl

theorem run_display (value : Value) (line : Nat) (world : World) :
    (display value line).run world =
      match world.console.write (Console.utf8 (value.display ++ "\n")) with
      | (true, console) => .ok () { world with console }
      | (false, console) =>
          .error (.fault ⟨.inputOutput "failed to write whole buffer", line⟩)
            { world with console } := by
  simp only [display, EStateM.run_bind, EStateM.run_get, EStateM.run_set]
  cases world.console.write (Console.utf8 (value.display ++ "\n")) with
  | mk complete console => cases complete <;> rfl

@[simp]
theorem run_takeLine (world : World) :
    takeLine.run world =
      .ok world.console.takeLine.1 { world with console := world.console.takeLine.2 } := rfl

/-- Assigns a field of an input line. A value that its target does not admit is charged to the
statement's line. -/
def assignField (target : Token) (field : List Char) (line : Nat) : Exec Unit := do
  let value := Value.ofField field
  let binding ← ofEval (Eval.lookup target)
  if binding.type.admits value then
    ofEval (Eval.assign target value)
  else
    fault (.typeMismatch target.lexeme binding.type) line

def assignFields (line : Nat) : List (Token × List Char) → Exec Unit
  | [] => return ()
  | (target, field) :: rest => do
      assignField target field line
      assignFields line rest

/-- Reads a line of input and assigns its fields to the targets. -/
def scan (targets : List Token) (line : Nat) : Exec Unit := do
  match Console.decode? (← takeLine) with
  | none => fault (.inputOutput "stream did not contain valid UTF-8") line
  | some text =>
      let fields := Text.fields text.toList
      if fields.length = targets.length then
        assignFields line (targets.zip fields)
      else
        fault (.scanFieldCount targets.length fields.length) line

/-- Declares a variable; its type has to admit the value of its initializer. -/
def declare (type : ValueType) (name : Token) : Option Expr → Exec Unit
  | none => define name.lexeme ⟨type, .nil⟩
  | some initializer => do
      let value ← ofEval initializer.eval
      if type.admits value then
        define name.lexeme ⟨type, value⟩
      else
        fault (.initializerMismatch name.lexeme type) name.line

/-- Assigns to several variables in order; a missing value counts as nil. -/
def assignAll : List (Token × Option Expr) → Exec Unit
  | [] => return ()
  | (name, initializer) :: rest => do
      let value ←
        match initializer with
        | some expr => ofEval expr.eval
        | none => pure .nil
      ofEval (Eval.assign name value)
      assignAll rest

/-- Repeats a body while the condition holds, for fewer rounds than the bound. -/
def repeatWhile (condition : Expr) (body : Exec Unit) : Nat → Exec Unit
  | 0 => throw .outOfRounds
  | bound + 1 => do
      if (← ofEval condition.eval).truthy then
        body
        repeatWhile condition body bound

end Exec

mutual

/-- Executes a statement; no loop in it runs for `bound` rounds or more. -/
def Stmt.exec (bound : Nat) : Stmt → Exec Unit
  | .block body _ => Exec.inScope (Stmt.execAll bound body)
  | .expression expr _ => do
      let _ ← Exec.ofEval expr.eval
  | .conditional condition thenBranch elseBranch _ => do
      if (← Exec.ofEval condition.eval).truthy then
        thenBranch.exec bound
      else
        Stmt.execElse bound elseBranch
  | .loop condition body _ => Exec.repeatWhile condition (body.exec bound) bound
  | .display value line => do
      Exec.display (← Exec.ofEval value.eval) line
  | .scan targets line => Exec.scan targets line
  | .declare type name initializer => Exec.declare type name initializer
  | .assignAll names values _ => Exec.assignAll (names.zip values)

/-- Executes the second branch of a conditional, if it has one. -/
def Stmt.execElse (bound : Nat) : Option Stmt → Exec Unit
  | none => return ()
  | some branch => branch.exec bound

/-- Executes statements in order. -/
def Stmt.execAll (bound : Nat) : List Stmt → Exec Unit
  | [] => return ()
  | first :: rest => do
      first.exec bound
      Stmt.execAll bound rest

end

end BeginCode
