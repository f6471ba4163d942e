import BeginCode.Program

/-!
# Traces

A trace keeps, beside the world, the moments of a run: when a statement or an expression is entered,
when a scope begins or ends and when a variable is declared or assigned, each with its place in the
program and the environment at that moment. Tracing a computation changes nothing in its outcome.
-/

namespace BeginCode

/-- One step down the tree of a statement or an expression. -/
inductive Turn where
  | item (index : Nat)
  | condition
  | thenBranch
  | elseBranch
  | body
  | value
  | left
  | right
  deriving DecidableEq, Repr

/-- A part of a program, by the way down to it. -/
abbrev Place := List Turn

/-- What happens at a moment. The environment of a change is the one after it. -/
inductive Event where
  | start
  | execute (statement : Stmt)
  | evaluate (expr : Expr)
  | push
  | pop
  | declare (type : ValueType) (name : String)
  | assign (name : String)

structure Moment where
  place : Place
  event : Event
  environment : Environment

structure Trace where
  world : World
  moments : List Moment

/-- A computation that records its moments, which it keeps also when it stops. -/
abbrev Traced := EStateM Stop Trace

namespace Trace

def note (trace : Trace) (place : Place) (event : Event) : Trace :=
  { trace with moments := trace.moments ++ [⟨place, event, trace.world.environment⟩] }

/-- Changes the environment and notes the change. -/
def change (trace : Trace) (place : Place) (event : Event)
    (update : Environment → Environment) : Trace :=
  note { trace with world.environment := update trace.world.environment } place event

theorem moments_note (trace : Trace) (place : Place) (event : Event) :
    (trace.note place event).moments =
      trace.moments ++ [⟨place, event, trace.world.environment⟩] := rfl

theorem moments_change (trace : Trace) (place : Place) (event : Event)
    (update : Environment → Environment) :
    (trace.change place event update).moments =
      trace.moments ++ [⟨place, event, update trace.world.environment⟩] := rfl

theorem environment_change (trace : Trace) (place : Place) (event : Event)
    (update : Environment → Environment) :
    (trace.change place event update).world.environment = update trace.world.environment := rfl

end Trace

namespace Traced

variable {α : Type}

/-- A computation in which nothing happens that is worth a moment. -/
def lift (exec : Exec α) : Traced α := fun trace =>
  match exec.run trace.world with
  | .ok result world => .ok result { trace with world }
  | .error stop world => .error stop { trace with world }

def note (place : Place) (event : Event) : Traced Unit := modify (·.note place event)

def inScope (place : Place) (body : Traced α) : Traced α := fun trace =>
  match body.run (trace.change place .push Environment.push) with
  | .ok result after => .ok result (after.change place .pop Environment.pop)
  | .error stop after => .error stop (after.change place .pop Environment.pop)

theorem run_lift (exec : Exec α) (trace : Trace) :
    (lift exec).run trace =
      match exec.run trace.world with
      | .ok result world => .ok result { trace with world }
      | .error stop world => .error stop { trace with world } := rfl

theorem run_inScope (place : Place) (body : Traced α) (trace : Trace) :
    (inScope place body).run trace =
      match body.run (trace.change place .push Environment.push) with
      | .ok result after => .ok result (after.change place .pop Environment.pop)
      | .error stop after => .error stop (after.change place .pop Environment.pop) := rfl

def define (place : Place) (name : String) (binding : Binding) : Traced Unit :=
  modify (·.change place (.declare binding.type name) (·.define name binding))

def lookup (name : Token) : Traced Binding := lift (Exec.ofEval (Eval.lookup name))

def assign (place : Place) (name : Token) (value : Value) : Traced Unit := do
  lift (Exec.ofEval (Eval.assign name value))
  note place (.assign name.lexeme)

def assignField (place : Place) (target : Token) (field : List Char) (line : Nat) :
    Traced Unit := do
  let value := Value.ofField field
  let binding ← lookup target
  if binding.type.admits value then
    assign place target value
  else
    lift (Exec.fault (.typeMismatch target.lexeme binding.type) line)

def assignFields (place : Place) (line : Nat) : List (Token × List Char) → Traced Unit
  | [] => return ()
  | (target, field) :: rest => do
      assignField place target field line
      assignFields place line rest

def scan (place : Place) (targets : List Token) (line : Nat) : Traced Unit := do
  match Console.decode? (← lift Exec.takeLine) with
  | none => lift (Exec.fault (.inputOutput "stream did not contain valid UTF-8") line)
  | some text =>
      let fields := Text.fields text.toList
      if fields.length = targets.length then
        assignFields place line (targets.zip fields)
      else
        lift (Exec.fault (.scanFieldCount targets.length fields.length) line)

def repeatWhile (condition : Traced Value) (body : Traced Unit) : Nat → Traced Unit
  | 0 => throw .outOfRounds
  | bound + 1 => do
      if (← condition).truthy then
        body
        repeatWhile condition body bound

end Traced

/-- Evaluates an expression that stands at a place. -/
def Expr.trace (place : Place) (expr : Expr) : Traced Value := do
  Traced.note place (.evaluate expr)
  match expr with
  | literal value _ => return value
  | grouping inner _ => inner.trace (place ++ [.value])
  | unary op operand line =>
      let value ← operand.trace (place ++ [.value])
      Traced.lift (Exec.ofEval (Eval.ofResult (op.apply value) line))
  | binary op left right line =>
      let leftValue ← left.trace (place ++ [.left])
      let rightValue ← right.trace (place ++ [.right])
      Traced.lift (Exec.ofEval (Eval.ofResult (op.apply leftValue rightValue) line))
  | logical op left right _ =>
      let leftValue ← left.trace (place ++ [.left])
      if op.decides leftValue then return leftValue else right.trace (place ++ [.right])
  | .variable name => return (← Traced.lookup name).value
  | assign name value =>
      let newValue ← value.trace (place ++ [.value])
      Traced.assign place name newValue
      return newValue

namespace Traced

def declare (place : Place) (type : ValueType) (name : Token) : Option Expr → Traced Unit
  | none => define place name.lexeme ⟨type, .nil⟩
  | some initializer => do
      let value ← initializer.trace (place ++ [.value])
      if type.admits value then
        define place name.lexeme ⟨type, value⟩
      else
        lift (Exec.fault (.initializerMismatch name.lexeme type) name.line)

/-- Assigns to the variables from the one with number `index` on. -/
def assignAll (place : Place) (index : Nat) : List (Token × Option Expr) → Traced Unit
  | [] => return ()
  | (name, initializer) :: rest => do
      let value ←
        match initializer with
        | some expr => expr.trace (place ++ [.item index])
        | none => pure .nil
      assign place name value
      assignAll place (index + 1) rest

end Traced

mutual

/-- Executes a statement that stands at a place. -/
def Stmt.trace (bound : Nat) (place : Place) (statement : Stmt) : Traced Unit := do
  Traced.note place (.execute statement)
  match statement with
  | .block body _ => Traced.inScope place (Stmt.traceAll bound place 0 body)
  | .expression expr _ =>
      let _ ← expr.trace (place ++ [.value])
  | .conditional condition thenBranch elseBranch _ =>
      if (← condition.trace (place ++ [.condition])).truthy then
        thenBranch.trace bound (place ++ [.thenBranch])
      else
        Stmt.traceElse bound (place ++ [.elseBranch]) elseBranch
  | .loop condition body _ =>
      Traced.repeatWhile (condition.trace (place ++ [.condition]))
        (body.trace bound (place ++ [.body])) bound
  | .display value line =>
      let shown ← value.trace (place ++ [.value])
      Traced.lift (Exec.display shown line)
  | .scan targets line => Traced.scan place targets line
  | .declare type name initializer => Traced.declare place type name initializer
  | .assignAll names values _ => Traced.assignAll place 0 (names.zip values)

def Stmt.traceElse (bound : Nat) (place : Place) : Option Stmt → Traced Unit
  | none => return ()
  | some branch => branch.trace bound place

/-- Executes statements of which the first has number `index`. -/
def Stmt.traceAll (bound : Nat) (place : Place) (index : Nat) : List Stmt → Traced Unit
  | [] => return ()
  | first :: rest => do
      first.trace bound (place ++ [.item index])
      Stmt.traceAll bound place (index + 1) rest

end

/-! ### Tracing changes nothing -/

/-- A result without the moments. -/
def Traced.forget {α : Type} : EStateM.Result Stop Trace α → EStateM.Result Stop World α
  | .ok result trace => .ok result trace.world
  | .error stop trace => .error stop trace.world

/-- The traced computation does what the other one does. -/
def Traced.Erases {α : Type} (traced : Traced α) (exec : Exec α) : Prop :=
  ∀ trace : Trace, Traced.forget (traced.run trace) = exec.run trace.world

theorem Exec.ofEval_bind {α β : Type} (first : Eval α) (next : α → Eval β) :
    Exec.ofEval (first >>= next) =
      Exec.ofEval first >>= fun result => Exec.ofEval (next result) := by
  funext world
  change (Exec.ofEval (first >>= next)).run world =
    (Exec.ofEval first >>= fun result => Exec.ofEval (next result)).run world
  rw [Exec.run_ofEval, EStateM.run_bind, EStateM.run_bind, Exec.run_ofEval]
  cases first.run world.environment with
  | ok result environment => rfl
  | error error environment => rfl

namespace Traced

variable {α β : Type}

theorem erases_pure (result : α) : Erases (pure result) (pure result) := by
  intro trace
  rfl

theorem erases_throw (stop : Stop) : Erases (throw stop : Traced α) (throw stop) := by
  intro trace
  rfl

theorem erases_bind {first : Traced α} {next : α → Traced β} {exec : Exec α} {more : α → Exec β}
    (hfirst : first.Erases exec) (hnext : ∀ result, (next result).Erases (more result)) :
    (first >>= next).Erases (exec >>= more) := by
  intro trace
  have hrun := hfirst trace
  rw [EStateM.run_bind, EStateM.run_bind, ← hrun]
  cases first.run trace with
  | ok result later => exact hnext result later
  | error stop later => rfl

theorem erases_lift (exec : Exec α) : (lift exec).Erases exec := by
  intro trace
  rw [run_lift]
  cases exec.run trace.world with
  | ok result world => rfl
  | error stop world => rfl

theorem erases_note (place : Place) (event : Event) : (note place event).Erases (pure ()) := by
  intro trace
  rfl

theorem erases_note_bind {place : Place} {event : Event} {next : Traced α} {exec : Exec α}
    (hnext : next.Erases exec) : (note place event >>= fun _ => next).Erases exec := by
  intro trace
  exact hnext (trace.note place event)

theorem erases_ite {condition : Prop} [Decidable condition] {first second : Traced α}
    {one two : Exec α} (hfirst : first.Erases one) (hsecond : second.Erases two) :
    (if condition then first else second).Erases (if condition then one else two) := by
  by_cases hcondition : condition
  · rw [if_pos hcondition, if_pos hcondition]
    exact hfirst
  · rw [if_neg hcondition, if_neg hcondition]
    exact hsecond

theorem erases_inScope {body : Traced α} {exec : Exec α} (hbody : body.Erases exec)
    (place : Place) : (inScope place body).Erases (Exec.inScope exec) := by
  intro trace
  have hrun := hbody (trace.change place .push Environment.push)
  have hpushed : exec.run { trace.world with environment := trace.world.environment.push } =
      forget (body.run (trace.change place .push Environment.push)) := hrun.symm
  rw [run_inScope, Exec.run_inScope, hpushed]
  cases body.run (trace.change place .push Environment.push) with
  | ok result after => rfl
  | error stop after => rfl

theorem erases_define (place : Place) (name : String) (binding : Binding) :
    (define place name binding).Erases (Exec.define name binding) := by
  intro trace
  rfl

theorem erases_assign (place : Place) (name : Token) (value : Value) :
    (assign place name value).Erases (Exec.ofEval (Eval.assign name value)) := by
  have hassign := erases_bind (erases_lift (Exec.ofEval (Eval.assign name value)))
    fun _ => erases_note place (.assign name.lexeme)
  rwa [bind_pure_unit] at hassign

theorem erases_assignFields (place : Place) (line : Nat) (pairs : List (Token × List Char)) :
    (assignFields place line pairs).Erases (Exec.assignFields line pairs) := by
  induction pairs with
  | nil => exact erases_pure ()
  | cons pair rest ih =>
      refine erases_bind ?_ fun _ => ih
      exact erases_bind (erases_lift _) fun binding =>
        erases_ite (erases_assign place pair.1 _) (erases_lift _)

theorem erases_scan (place : Place) (targets : List Token) (line : Nat) :
    (scan place targets line).Erases (Exec.scan targets line) := by
  refine erases_bind (erases_lift Exec.takeLine) fun bytes => ?_
  cases Console.decode? bytes with
  | none => exact erases_lift _
  | some text => exact erases_ite (erases_assignFields place line _) (erases_lift _)

theorem erases_repeatWhile {condition : Traced Value} {expr : Expr} {body : Traced Unit}
    {exec : Exec Unit} (hcondition : condition.Erases (Exec.ofEval expr.eval))
    (hbody : body.Erases exec) (bound : Nat) :
    (repeatWhile condition body bound).Erases (Exec.repeatWhile expr exec bound) := by
  induction bound with
  | zero => exact erases_throw .outOfRounds
  | succ bound ih =>
      exact erases_bind hcondition fun value =>
        erases_ite (erases_bind hbody fun _ => ih) (erases_pure ())

end Traced

theorem Expr.erases_trace (expr : Expr) (place : Place) :
    (expr.trace place).Erases (Exec.ofEval expr.eval) := by
  induction expr generalizing place with
  | literal value _ => exact Traced.erases_note_bind (Traced.erases_pure value)
  | grouping inner _ ih => exact Traced.erases_note_bind (ih _)
  | unary op operand line ih =>
      rw [Expr.eval, Exec.ofEval_bind]
      exact Traced.erases_note_bind (Traced.erases_bind (ih _) fun _ => Traced.erases_lift _)
  | binary op left right line ihLeft ihRight =>
      simp only [Expr.eval, Exec.ofEval_bind]
      exact Traced.erases_note_bind (Traced.erases_bind (ihLeft _) fun _ =>
        Traced.erases_bind (ihRight _) fun _ => Traced.erases_lift _)
  | logical op left right _ ihLeft ihRight =>
      rw [Expr.eval, Exec.ofEval_bind]
      refine Traced.erases_note_bind (Traced.erases_bind (ihLeft _) fun value => ?_)
      by_cases hdecides : op.decides value = true
      · rw [if_pos hdecides, if_pos hdecides]
        exact Traced.erases_pure value
      · rw [if_neg hdecides, if_neg hdecides]
        exact ihRight _
  | «variable» name =>
      rw [Expr.eval, Exec.ofEval_bind]
      exact Traced.erases_note_bind (Traced.erases_bind (Traced.erases_lift _) fun _ =>
        Traced.erases_pure _)
  | assign name value ih =>
      simp only [Expr.eval, Exec.ofEval_bind]
      exact Traced.erases_note_bind (Traced.erases_bind (ih _) fun _ =>
        Traced.erases_bind (Traced.erases_assign _ _ _) fun _ => Traced.erases_pure _)

namespace Traced

theorem erases_declare (place : Place) (type : ValueType) (name : Token)
    (initializer : Option Expr) :
    (declare place type name initializer).Erases (Exec.declare type name initializer) := by
  cases initializer with
  | none => exact erases_define _ _ _
  | some value =>
      exact erases_bind (value.erases_trace _) fun _ =>
        erases_ite (erases_define _ _ _) (erases_lift _)

theorem erases_assignAll (place : Place) (index : Nat) (pairs : List (Token × Option Expr)) :
    (assignAll place index pairs).Erases (Exec.assignAll pairs) := by
  induction pairs generalizing index with
  | nil => exact erases_pure ()
  | cons pair rest ih =>
      obtain ⟨name, initializer⟩ := pair
      cases initializer with
      | none =>
          exact erases_bind (erases_pure _) fun _ =>
            erases_bind (erases_assign _ _ _) fun _ => ih _
      | some value =>
          exact erases_bind (value.erases_trace _) fun _ =>
            erases_bind (erases_assign _ _ _) fun _ => ih _

end Traced

mutual

theorem Stmt.erases_trace (bound : Nat) (place : Place) :
    (statement : Stmt) → (statement.trace bound place).Erases (statement.exec bound)
  | .block body _ =>
      Traced.erases_note_bind
        (Traced.erases_inScope (Stmt.erases_traceAll bound place 0 body) place)
  | .expression expr _ =>
      Traced.erases_note_bind (Traced.erases_bind (expr.erases_trace _) fun _ =>
        Traced.erases_pure ())
  | .conditional condition thenBranch elseBranch _ =>
      Traced.erases_note_bind (Traced.erases_bind (condition.erases_trace _) fun _ =>
        Traced.erases_ite (Stmt.erases_trace bound _ thenBranch)
          (Stmt.erases_traceElse bound _ elseBranch))
  | .loop condition body _ =>
      Traced.erases_note_bind (Traced.erases_repeatWhile (condition.erases_trace _)
        (Stmt.erases_trace bound _ body) bound)
  | .display value _ =>
      Traced.erases_note_bind (Traced.erases_bind (value.erases_trace _) fun _ =>
        Traced.erases_lift _)
  | .scan targets line => Traced.erases_note_bind (Traced.erases_scan place targets line)
  | .declare type name initializer =>
      Traced.erases_note_bind (Traced.erases_declare place type name initializer)
  | .assignAll names values _ =>
      Traced.erases_note_bind (Traced.erases_assignAll place 0 (names.zip values))

theorem Stmt.erases_traceElse (bound : Nat) (place : Place) :
    (branch : Option Stmt) → (Stmt.traceElse bound place branch).Erases (Stmt.execElse bound branch)
  | none => Traced.erases_pure ()
  | some branch => Stmt.erases_trace bound place branch

theorem Stmt.erases_traceAll (bound : Nat) (place : Place) (index : Nat) :
    (statements : List Stmt) →
      (Stmt.traceAll bound place index statements).Erases (Stmt.execAll bound statements)
  | [] => Traced.erases_pure ()
  | first :: rest =>
      Traced.erases_bind (Stmt.erases_trace bound _ first) fun _ =>
        Stmt.erases_traceAll bound place (index + 1) rest

end

/-! ### Calls -/

/-- What a program or a user of the evaluator can ask for. -/
inductive Call where
  | interpret (statements : List Stmt)
  | execute (statement : Stmt)
  | executeBlock (statements : List Stmt)
  | evaluate (expr : Expr)
  | scan (targets : List Token) (line : Nat)
  | display (value : Value) (line : Nat)

/-- The world after a computation, whether it succeeds or stops. -/
def Exec.final {α : Type} (exec : Exec α) (world : World) : World :=
  match exec.run world with
  | .ok _ later => later
  | .error _ later => later

def Traced.final {α : Type} (traced : Traced α) (trace : Trace) : Trace :=
  match traced.run trace with
  | .ok _ later => later
  | .error _ later => later

theorem Traced.Erases.world_final {α : Type} {traced : Traced α} {exec : Exec α}
    (herases : traced.Erases exec) (trace : Trace) :
    (traced.final trace).world = exec.final trace.world := by
  unfold Traced.final Exec.final
  rw [← herases trace]
  cases traced.run trace with
  | ok result later => rfl
  | error stop later => rfl

/-- A world in which nothing has happened yet. -/
def Trace.start (console : Console) : Trace := ⟨{ console }, [⟨[], .start, .root⟩]⟩

namespace Call

def run (bound : Nat) : Call → Exec Unit
  | interpret statements => Stmt.execAll bound statements
  | execute statement => statement.exec bound
  | executeBlock statements => Exec.inScope (Stmt.execAll bound statements)
  | evaluate expr => do
      let _ ← Exec.ofEval expr.eval
  | scan targets line => Exec.scan targets line
  | display value line => Exec.display value line

def trace (bound : Nat) (place : Place) : Call → Traced Unit
  | interpret statements => Stmt.traceAll bound place 0 statements
  | execute statement => statement.trace bound place
  | executeBlock statements => Traced.inScope place (Stmt.traceAll bound place 0 statements)
  | evaluate expr => do
      let _ ← expr.trace place
  | scan targets line => Traced.scan place targets line
  | display value line => Traced.lift (Exec.display value line)

/-- The world after several calls, each made whether or not the one before it has failed. -/
def runAll (bound : Nat) : List Call → World → World
  | [], world => world
  | call :: rest, world => runAll bound rest ((call.run bound).final world)

/-- Traces calls of which the first has number `index`. -/
def traceAll (bound index : Nat) : List Call → Trace → Trace
  | [], trace => trace
  | call :: rest, trace =>
      traceAll bound (index + 1) rest ((call.trace bound [.item index]).final trace)

theorem erases_trace (bound : Nat) (place : Place) (call : Call) :
    (call.trace bound place).Erases (call.run bound) := by
  cases call with
  | interpret statements => exact Stmt.erases_traceAll bound place 0 statements
  | execute statement => exact Stmt.erases_trace bound place statement
  | executeBlock statements =>
      exact Traced.erases_inScope (Stmt.erases_traceAll bound place 0 statements) place
  | evaluate expr =>
      exact Traced.erases_bind (expr.erases_trace place) fun _ => Traced.erases_pure ()
  | scan targets line => exact Traced.erases_scan place targets line
  | display value line => exact Traced.erases_lift _

theorem world_traceAll (bound index : Nat) (calls : List Call) (trace : Trace) :
    (traceAll bound index calls trace).world = runAll bound calls trace.world := by
  induction calls generalizing index trace with
  | nil => rfl
  | cons call rest ih =>
      rw [traceAll, runAll, ih, (erases_trace bound [.item index] call).world_final]

end Call

/-- The traced run of a program from the root scope. -/
def Program.history (bound : Nat) (statements : List Stmt) (console : Console) : Trace :=
  (Stmt.traceAll bound [] 0 statements).final (.start console)

theorem Program.world_history (bound : Nat) (statements : List Stmt) (console : Console) :
    (history bound statements console).world = (Stmt.execAll bound statements).final { console } :=
  (Stmt.erases_traceAll bound [] 0 statements).world_final (.start console)

end BeginCode
